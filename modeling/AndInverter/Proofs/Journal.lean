import AndInverter.Proofs.Graph.Replay
import AndInverter.Proofs.Passes.Simplified
import AndInverter.Proofs.Passes.Hashed
import AndInverter.Proofs.Reduction.Merging

namespace AndInverter

/-! Journals are complete and true. The events of a pass are its merges, all of them and in
order, and so are the events of a reduction up to its final sweep, which it keeps to itself;
carried out again, they lead from the initial graph to the one that was left. -/

open AndInverter.Graph (Accounts FaithfullyAccounts)

/-! ## Passes -/

namespace Pass

variable {Memory : Type} {pass : Pass Memory} {Remembers : Memory → Graph → Prop}
  {graph : Graph}

theorem Sound.runFrom_accounts (sound : pass.Sound Remembers) (traversal : PostOrder)
    (memory : Memory) (count : Nat) (wellFormed : graph.WellFormed)
    (remembers : Remembers memory graph) :
    let outcome := pass.runFrom traversal memory count graph
    ∃ merges : List Merge, outcome.journal.events = merges.map (Merge.event pass.cause) ∧
      graph.FaithfullyAccounts merges outcome.graph ∧
        ∀ total, outcome.result = .ok total → total = count + merges.length := by
  induction traversal, memory, count, graph using runFrom.induct pass with
  | case1 traversal memory count graph rest finished =>
      rw [runFrom_eq, finished]
      refine ⟨[], rfl, .nil wellFormed, fun total counted => ?_⟩
      cases counted
      rfl
  | case2 traversal memory count graph id rest found after judged induction =>
      rw [runFrom_eq, found]
      simp only [judged]
      exact induction wellFormed (sound.skip remembers judged)
  | case3 traversal memory count graph id rest found survivor after judged failure refused =>
      rw [runFrom_eq, found]
      simp only [judged, refused]
      refine ⟨[], rfl, .nil wellFormed, fun total counted => ?_⟩
      cases counted
  | case4 traversal memory count graph id rest found survivor after judged replaced accepted
      induction =>
      rw [runFrom_eq, found]
      simp only [judged, accepted, Outcome.after]
      rcases sound.merge wellFormed.toLinked remembers judged accepted with
        ⟨unseen, same, remembersLater⟩
      have first := FaithfullyAccounts.single wellFormed accepted unseen (same wellFormed)
      rcases induction first.wellFormed remembersLater with ⟨merges, told, accounts, counted⟩
      refine ⟨⟨survivor, id⟩ :: merges, ?_, first.append accounts, fun total success => ?_⟩
      · rw [Journal.events_append, told]
        rfl
      · rw [counted total success, List.length_cons]
        omega

theorem Sound.run_accounts (sound : pass.Sound Remembers)
    {Knows : Memory → Graph → List Nat → Prop} (orderly : pass.Orderly Knows)
    (wellFormed : graph.WellFormed) :
    ∃ merges : List Merge, (pass.run graph).journal.events = merges.map (Merge.event pass.cause) ∧
      graph.FaithfullyAccounts merges (pass.run graph).graph ∧
        (pass.run graph).result = .ok merges.length := by
  rcases sound.runFrom_accounts (.ofOutputs graph) pass.initial 0 wellFormed
    (sound.initial graph) with ⟨merges, told, accounts, counted⟩
  have result := (orderly.run wellFormed).1
  have total := counted _ result
  rw [Nat.zero_add] at total
  exact ⟨merges, told, accounts, result.trans (congrArg Except.ok total)⟩

end Pass

/-! ## Reductions -/

variable {State : Type} [Backend State] {graph : Graph}

namespace Scan

def Tells (graph : Graph) (scan : Scan State) : Prop :=
  ∃ merges : List Merge, scan.events = merges.map (Merge.event .reduction) ∧
    scan.report.merges = merges.length ∧ graph.Accounts merges scan.graph ∧
      ∀ _ : SoundBackend State, graph.FaithfullyAccounts merges scan.graph

variable {scan : Scan State}

theorem Tells.compare (tells : scan.Tells graph) (pivot member : Literal) :
    (scan.compare pivot member).1.Tells graph := by
  rcases tells with ⟨merges, told, counted, accounts, faithful⟩
  have compared := scan.compared pivot member
  rcases outcome : scan.compare pivot member with ⟨after, answer⟩
  rw [outcome] at compared
  cases compared with
  | idle graph events merges =>
      refine ⟨_, events.trans told, merges.trans counted, ?_⟩
      rw [graph]
      exact ⟨accounts, faithful⟩
  | merged proved graph result events count =>
      rcases scan.graph.mergeEqual_cases pivot member with
        ⟨-, unmerged, -⟩ | ⟨keep, drop, direction, success, -, event⟩
      · exact absurd result unmerged
      · have wellFormed := accounts.wellFormed
        have unseen := wellFormed.not_sees_of_merge direction success
        refine ⟨merges ++ [⟨keep.xor drop.inverted, drop.node⟩], ?_, ?_, ?_⟩
        · rw [events, told, event, List.map_append, List.map_singleton, Merge.event]
        · rw [count, counted, List.length_append, List.length_singleton]
        · rw [graph]
          refine ⟨accounts.append (.single wellFormed success unseen), fun sound => ?_⟩
          have same := wellFormed.sameSignal_of_prove proved
          exact (faithful sound).append
            (.single wellFormed success unseen (same.of_mergeDirection direction))

theorem steps_tells (graph : Graph) :
    Steps (fun _ _ => True) (fun scan : Scan State => scan.Tells graph)
      (fun scan _ => scan.Tells graph) where
  goesOn {_ _ pivot member _} tells _ _ _ compared := by
    have later := tells.compare pivot member
    rwa [compared] at later
  fails {_ _ pivot member _} tells _ _ _ compared := by
    have later := tells.compare pivot member
    rwa [compared] at later

end Scan

theorem Reduction.run_accounts (wellFormed : graph.WellFormed) (options : ReductionOptions)
    (partition : Partition) (backend : State) :
    let reduced := run options graph partition backend
    ∃ (merges : List Merge) (merged : Graph),
      reduced.journal.events = merges.map (Merge.event .reduction) ∧ graph.Accounts merges merged ∧
        (∀ _ : SoundBackend State, graph.FaithfullyAccounts merges merged) ∧
          match reduced.result with
          | .ok report => reduced.graph = merged.sweep ∧ report.merges = merges.length
          | .error _ => reduced.graph = merged := by
  have start : Scan.Tells graph (⟨graph, backend, {}, []⟩ : Scan State) :=
    ⟨[], rfl, rfl, .nil wellFormed, fun _ => .nil wellFormed⟩
  have scanned := (Scan.steps_tells graph).scanAll options.maxFailures partition.classes _ start
  rw [run]
  rcases outcome : Scan.scanClasses options.maxFailures partition.classes
    (⟨graph, backend, {}, []⟩ : Scan State) with ⟨scan, failure?⟩
  rw [outcome] at scanned
  cases failure? with
  | some failure =>
      rcases scanned with ⟨merges, told, -, accounts, faithful⟩
      exact ⟨merges, scan.graph, told, accounts, faithful, rfl⟩
  | none =>
      rcases scanned with ⟨merges, told, counted, accounts, faithful⟩
      refine ⟨merges, scan.graph, ?_, accounts, faithful, rfl, counted⟩
      simp only [Journal.events_append, Journal.events_silenced, List.append_nil]
      exact (List.append_nil _).trans told

/-- The journal of a pass or of a reduction is complete and true. Its events are merges of
different gates that were in service before and are not afterwards, each into a literal that
carried the gate's signal in the initial graph. Carried out again on the initial graph, they
lead to the graph that is left: by a reduction that ends well, up to its final sweep. The
number that is returned is theirs. -/
theorem Graph.WellFormed.journal_accounts (wellFormed : graph.WellFormed) :
    (∀ table : GateTable, let hashed := table.hash graph
      ∃ merges : List Merge, hashed.journal.events = merges.map (Merge.event .hashing) ∧
        graph.FaithfullyAccounts merges hashed.graph ∧ hashed.result = .ok merges.length) ∧
    (let simplified := simplification.run graph
      ∃ merges : List Merge, simplified.journal.events = merges.map (Merge.event .simplification) ∧
        graph.FaithfullyAccounts merges simplified.graph ∧
          simplified.result = .ok merges.length) ∧
    ∀ {State : Type} [Backend State] [SoundBackend State] (options : ReductionOptions)
      (partition : Partition) (backend : State),
      let reduced := Reduction.run options graph partition backend
      ∃ (merges : List Merge) (merged : Graph),
        reduced.journal.events = merges.map (Merge.event .reduction) ∧
          graph.FaithfullyAccounts merges merged ∧
            (∀ merge ∈ merges, reduced.graph.isActive merge.gate = false) ∧
              match reduced.result with
              | .ok report => reduced.graph = merged.sweep ∧ report.merges = merges.length
              | .error _ => reduced.graph = merged := by
  refine ⟨fun table => ?_, ?_, ?_⟩
  · rw [table.hash_eq_run]
    exact structuralHash_sound.run_accounts orderly_structuralHash wellFormed
  · exact simplification_sound.run_accounts orderly_simplification wellFormed
  · intro State _ _ options partition backend
    rcases Reduction.run_accounts wellFormed options partition backend with
      ⟨merges, merged, told, -, faithful, final⟩
    have accounts := faithful inferInstance
    refine ⟨merges, merged, told, accounts, fun merge member => ?_, final⟩
    have gone := (accounts.retired merge member).2.2
    split at final
    · rw [final.1, Bool.eq_false_iff]
      intro active
      rw [(Graph.isActive_sweep.mp active).1] at gone
      cases gone
    · rwa [final]

/-- Of the two equal gates of the sample, hashing merges the second one into the first. -/
theorem Graph.journal_accounts_twins :
    twins.WellFormed ∧
      twins.FaithfullyAccounts [⟨.plain 3, 4⟩] (GateTable.hash ∅ twins).graph ∧
        (GateTable.hash ∅ twins).result = .ok 1 := by
  have wellFormed := consistent_twins.toWellFormed
  rcases wellFormed.journal_accounts.1 ∅ with ⟨merges, told, accounts, counted⟩
  have events : (GateTable.hash ∅ twins).journal.events = [.merge .hashing (.plain 3) 4] := by
    decide +kernel
  have same : merges = [⟨.plain 3, 4⟩] :=
    List.map_injective_iff.mpr (Merge.event_injective .hashing) (told.symm.trans events)
  subst same
  exact ⟨wellFormed, accounts, counted⟩

end AndInverter
