import AndInverter.Proofs.Graph.Annotations
import AndInverter.Proofs.Graph.Replacement
import AndInverter.Proofs.Graph.Sweep
import AndInverter.Simulation.Options

namespace AndInverter

/-! Invariants of graphs. All that the passes and the sessions do to a graph is to replace
a gate by a literal that does not see it, to sweep, and to annotate; what these three keep
true is true after any run. In a well-formed graph gate and literal are equal, too. -/

namespace Graph

structure Invariant (Holds : Graph → Prop) : Prop where
  linked : ∀ {graph : Graph}, Holds graph → graph.Linked
  replace : ∀ {graph replaced : Graph} {replacement : Literal} {gate : Nat}, Holds graph →
    graph.replace replacement gate = .ok replaced → ¬graph.Sees replacement.node gate →
      (graph.WellFormed → graph.SameSignal (.plain gate) replacement) → Holds replaced
  sweep : ∀ {graph : Graph}, Holds graph → Holds graph.sweep
  annotate : ∀ {graph after : Graph}, Holds graph → graph.Annotates after → Holds after

theorem invariant_preserves (start : Graph) :
    Invariant fun graph => graph.WellFormed ∧ start.Preserves graph where
  linked holds := holds.1.toLinked
  replace holds success unseen equal :=
    ⟨holds.1.wellFormed_replace success unseen,
      holds.2.trans (holds.1.preserves_replace success unseen (equal holds.1))⟩
  sweep holds := ⟨holds.1.sweep, holds.2.trans holds.1.preserves_sweep⟩
  annotate holds annotates :=
    ⟨annotates.wellFormed holds.1, holds.2.trans annotates.preserves⟩

/-! ## Sessions -/

theorem annotates_session {Source : Type} [Stimulus Source] (graph : Graph) (source : Source)
    (log : PatternLog) : graph.sweep.Annotates (Session.run graph source log).graph := by
  rw [Session.run]
  simp only
  split
  · exact .refl _
  · exact (annotates_recordSignatures _ _ _).trans (Partition.annotates_recordIn _ _)

end Graph

namespace Session

/-- The sessions of a graph: on any source, on patterns that are made up, or on a text. -/
inductive Conducted (graph : Graph) : Session → Prop
  | run {Source : Type} [Stimulus Source] (source : Source) (log : PatternLog) :
      Conducted graph (.run graph source log)
  | madeUp (options : SimulationOptions) (log : PatternLog) :
      Conducted graph (.madeUp graph options log)
  | ofText (text : Text.Bytes) (log : PatternLog) : Conducted graph (.ofText graph text log)

namespace Conducted

variable {graph : Graph} {session : Session} (conducted : Conducted graph session)

include conducted

theorem exists_run : ∃ (Source : Type) (_ : Stimulus Source) (source : Source)
    (log : PatternLog), session = .run graph source log := by
  cases conducted with
  | run source log => exact ⟨_, _, source, log, rfl⟩
  | madeUp options log =>
      unfold Session.madeUp
      simp only
      split
      · exact ⟨_, _, _, log, rfl⟩
      · exact ⟨_, _, _, log, rfl⟩
  | ofText text log => exact ⟨_, _, PatternSource.ofBytes text, log, rfl⟩

theorem annotates : graph.sweep.Annotates session.graph := by
  rcases conducted.exists_run with ⟨Source, stimulus, source, log, rfl⟩
  exact graph.annotates_session source log

end Conducted

end Session

theorem Graph.Invariant.conducted {Holds : Graph → Prop} (invariant : Graph.Invariant Holds)
    {graph : Graph} {session : Session} (conducted : Session.Conducted graph session)
    (holds : Holds graph) : Holds session.graph :=
  invariant.annotate (invariant.sweep holds) conducted.annotates

end AndInverter
