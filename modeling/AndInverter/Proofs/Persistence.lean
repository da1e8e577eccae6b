import AndInverter.Proofs.Graph.InPlace
import AndInverter.Proofs.Passes.Removal
import AndInverter.Proofs.Transformation

namespace AndInverter.Graph

/-! What lasts. Whatever rewrites a well-formed graph makes gates inactive and rewires active
nodes, and does nothing else: an id keeps its meaning for good, and a gate that has gone stays
as it went. -/

/-- One rewriting of a graph: a replacement of a gate by what does not depend on it, a sweep,
or a step of a run. Any of them may fail. -/
inductive Rewrites (graph : Graph) : Graph → Prop
  | replace {replacement : Literal} {gate : Nat}
      (unseen : graph.coneContains replacement.node gate = false) :
      Rewrites graph ((Edit.replace replacement gate).leave graph)
  | sweep : Rewrites graph graph.sweepInPlace.graph
  | transform (step : Transformation) : Rewrites graph (step.apply graph)

def Evolves : Graph → Graph → Prop :=
  Relation.ReflTransGen Rewrites

variable {graph middle after : Graph}

theorem framed_replace {start replaced : Graph} {replacement : Literal} {gate : Nat}
    (holds : graph.WellFormed ∧ start.Frame graph)
    (success : graph.replace replacement gate = .ok replaced)
    (unseen : ¬graph.Sees replacement.node gate) : replaced.WellFormed ∧ start.Frame replaced :=
  ⟨holds.1.wellFormed_replace success unseen,
    holds.2.trans (holds.1.frame_replace success)⟩

theorem invariant_frame (start : Graph) :
    Invariant fun graph => graph.WellFormed ∧ start.Frame graph where
  linked holds := holds.1.toLinked
  replace holds success unseen _ := framed_replace holds success unseen
  sweep holds := ⟨holds.1.sweep, holds.2.trans (frame_sweep _)⟩
  annotate holds annotates := ⟨annotates.wellFormed holds.1, holds.2.trans annotates.frame⟩

theorem WellFormed.leave_replace (wellFormed : graph.WellFormed) {replacement : Literal}
    {gate : Nat} (unseen : graph.coneContains replacement.node gate = false) :
    ((Edit.replace replacement gate).leave graph).WellFormed ∧
      graph.Frame ((Edit.replace replacement gate).leave graph) := by
  rw [Edit.leave]
  rcases wellFormed.run_replace_cases replacement gate with
    ⟨-, failure, run⟩ | ⟨old, replaced, after, -, success, run, same, frame, -⟩
  · rw [run]
    exact ⟨wellFormed, .refl graph⟩
  · rw [run]
    refine ⟨same.wellFormed (wellFormed.wellFormed_replace success ?_), frame⟩
    rwa [← coneContains_iff, Bool.not_eq_true]

theorem WellFormed.rewrites (wellFormed : graph.WellFormed) (rewrites : graph.Rewrites after) :
    after.WellFormed ∧ graph.Frame after := by
  cases rewrites with
  | replace unseen => exact wellFormed.leave_replace unseen
  | sweep =>
      exact ⟨wellFormed.sameLive_sweepInPlace.wellFormed wellFormed.sweep,
        wellFormed.frame_sweepInPlace⟩
  | transform step =>
      apply (invariant_frame graph).apply step _ ⟨wellFormed, .refl graph⟩
      apply step.uses_of_forall
      exact fun State _ => Scan.keeps_of_replace (fun holds => holds.1.toLinked) framed_replace

theorem WellFormed.evolves (wellFormed : graph.WellFormed) (evolves : graph.Evolves after) :
    after.WellFormed ∧ graph.Frame after := by
  induction evolves with
  | refl => exact ⟨wellFormed, .refl graph⟩
  | tail _ rewrites kept =>
      rcases kept.1.rewrites rewrites with ⟨wellFormedAfter, frame⟩
      exact ⟨wellFormedAfter, kept.2.trans frame⟩

/-- However a well-formed graph has evolved, and however it evolves on: its size, its ids, its
inputs and outputs stay, and so do the label of every node and what kind of node it is. What is
inactive stays inactive and reads what it read; what becomes inactive is a gate. -/
theorem WellFormed.lasting_of_evolves (wellFormed : graph.WellFormed)
    (earlier : graph.Evolves middle) (later : middle.Evolves after) :
    after.size = middle.size ∧ after.ids = middle.ids ∧ after.inputs = middle.inputs ∧
      after.outputs = middle.outputs ∧
      ∀ id node, middle.node? id = some node → ∃ changed, after.node? id = some changed ∧
        changed.label = node.label ∧
        (∃ transform, changed.kind = node.kind.mapFanins transform) ∧
        (node.active = false → changed.active = false ∧ changed.kind = node.kind) ∧
        (node.active = true → changed.active = false → node.kind.isGate = true) := by
  have frame := ((wellFormed.evolves earlier).1.evolves later).2
  refine ⟨frame.size, frame.ids, frame.inputs, frame.outputs, ?_⟩
  intro id node found
  rcases frame.node id node found with ⟨changed, laterFound, kept⟩
  refine ⟨changed, laterFound, kept.label, kept.kind, ?_, ?_⟩
  · intro inactive
    refine ⟨?_, kept.frozen inactive⟩
    rw [Bool.eq_false_iff]
    intro active
    rw [kept.active active] at inactive
    cases inactive
  · intro active inactive
    by_contra noGate
    rw [Bool.not_eq_true] at noGate
    rw [kept.kept noGate, active] at inactive
    cases inactive

/-- A gate that was replaced before a hash is as it was after the hash and a sweep. -/
theorem lasting_of_evolves_twins : twins.WellFormed ∧
    ∃ middle after, twins.Evolves middle ∧ middle.Evolves after ∧ after.size = 8 ∧
      ∃ changed, after.node? 4 = some changed ∧ changed.active = false ∧
        changed.kind = .gate (.plain 2) (.plain 1) := by
  have wellFormed := consistent_twins.toWellFormed
  let middle := (Edit.replace (.plain 3) 4).leave twins
  have earlier : twins.Evolves middle := .single (.replace (by decide +kernel))
  have hashed : middle.Evolves (Transformation.hash.apply middle).sweepInPlace.graph :=
    .tail (.single (.transform .hash)) .sweep
  rcases wellFormed.lasting_of_evolves earlier hashed with ⟨size, -, -, -, nodes⟩
  rcases nodes 4 _ rfl with ⟨changed, found, -, -, frozen, -⟩
  exact ⟨wellFormed, middle, _, earlier, hashed, size, changed, found, frozen rfl⟩

end AndInverter.Graph
