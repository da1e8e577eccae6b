import AndInverter.Proofs.Equivalence.Query
import AndInverter.Proofs.Graph.Tidiness
import AndInverter.Proofs.Passes.Simplification
import AndInverter.Proofs.Traversal.Cone
import AndInverter.Reduction

namespace AndInverter

/-! Merges of a reduction. The direction of a merge is such that the kept node does not
see the dropped one, whatever the two are; so a merge leaves no cycle even when the back
end lies, and keeps all functions when it does not. -/

namespace Graph

variable {graph : Graph} {first second : Literal}

/-! ## One merge -/

theorem Sees.eq_of_not_isGate {root target : Nat} {node : Node} (sees : graph.Sees root target)
    (found : graph.node? root = some node) (noGate : node.kind.isGate = false)
    (noOutput : node.kind.isOutput = false) : target = root := by
  rcases Relation.ReflTransGen.cases_head sees with equal | ⟨next, edge, -⟩
  · exact equal.symm
  · rcases edge.2 with ⟨fanin, member, -⟩
    rw [fanins_of_node? found] at member
    cases kind : node.kind with
    | constant
    | input =>
        rw [kind] at member
        cases member
    | gate left right =>
        rw [kind] at noGate
        cases noGate
    | output driver =>
        rw [kind] at noOutput
        cases noOutput

theorem Linked.not_sees_mergeDirection (linked : graph.Linked) {keep drop : Literal}
    (direction : graph.mergeDirection first second = (keep, drop))
    (different : keep.node ≠ drop.node)
    (target : ∃ node, graph.node? keep.node = some node ∧ node.kind.isOutput = false) :
    ¬graph.Sees keep.node drop.node := by
  intro sees
  rw [mergeDirection] at direction
  split at direction
  · rename_i outside
    cases direction
    rw [Bool.and_eq_true, Bool.not_eq_true', Bool.eq_false_iff] at outside
    exact outside.2 (coneContains_iff.mpr sees)
  · rename_i inside
    cases direction
    rcases target with ⟨node, found, noOutput⟩
    by_cases isGate : node.kind.isGate = true
    · -- The kept gate lies in the cone of the dropped node.
      have below : graph.Sees first.node second.node := by
        by_contra unseen
        apply inside
        rw [Bool.and_eq_true, Bool.not_eq_true', Bool.eq_false_iff, isGate_of_node? found]
        exact ⟨isGate, fun contained => unseen (coneContains_iff.mp contained)⟩
      exact different (linked.acyclic.eq_of_sees sees below)
    · exact different (sees.eq_of_not_isGate found (Bool.eq_false_iff.mpr isGate) noOutput).symm

theorem mergeDirection_cases {keep drop : Literal}
    (direction : graph.mergeDirection first second = (keep, drop)) :
    keep = first ∧ drop = second ∨ keep = second ∧ drop = first := by
  rw [mergeDirection] at direction
  split at direction
  · cases direction
    exact .inl ⟨rfl, rfl⟩
  · cases direction
    exact .inr ⟨rfl, rfl⟩

/-- A merge does nothing and tells of nothing, or replaces one of the two nodes by the other
and tells of that. -/
theorem mergeEqual_cases (graph : Graph) (first second : Literal) :
    ((graph.mergeEqual first second).graph = graph ∧
      (graph.mergeEqual first second).result ≠ .ok true ∧
        (graph.mergeEqual first second).journal.events = []) ∨
    ∃ keep drop, graph.mergeDirection first second = (keep, drop) ∧
      graph.replace (keep.xor drop.inverted) drop.node =
        .ok (graph.mergeEqual first second).graph ∧
      (graph.mergeEqual first second).result = .ok true ∧
        (graph.mergeEqual first second).journal.events =
          [.merge .reduction (keep.xor drop.inverted) drop.node] := by
  rcases direction : graph.mergeDirection first second with ⟨keep, drop⟩
  simp only [mergeEqual, direction]
  split
  · exact .inl ⟨rfl, by simp, rfl⟩
  · cases replaced : graph.replace (keep.xor drop.inverted) drop.node with
    | error failure => exact .inl ⟨rfl, by simp, rfl⟩
    | ok merged => exact .inr ⟨keep, drop, rfl, replaced, rfl, rfl⟩

theorem isGate_of_mergeDirection {keep drop : Literal}
    (direction : graph.mergeDirection first second = (keep, drop))
    (different : first.node ≠ second.node)
    (oneGate : graph.isGate first.node = true ∨ graph.isGate second.node = true)
    (target : ∃ node, graph.node? first.node = some node ∧ node.kind.isOutput = false) :
    graph.isGate drop.node = true := by
  rw [mergeDirection] at direction
  split at direction
  · rename_i outside
    cases direction
    exact (Bool.and_eq_true_iff.mp outside).1
  · rename_i inside
    cases direction
    by_contra noGate
    have secondGate := oneGate.resolve_left noGate
    rw [secondGate, Bool.true_and, Bool.not_eq_true', Bool.not_eq_false] at inside
    rcases target with ⟨node, found, noOutput⟩
    rw [isGate_of_node? found, Bool.not_eq_true] at noGate
    exact different ((coneContains_iff.mp inside).eq_of_not_isGate found noGate noOutput).symm

theorem mergeEqual_replaces (different : first.node ≠ second.node)
    (oneGate : graph.isGate first.node = true ∨ graph.isGate second.node = true)
    (firstTarget : ∃ node, graph.node? first.node = some node ∧ node.active = true ∧
      node.kind.isOutput = false)
    (secondTarget : ∃ node, graph.node? second.node = some node ∧ node.active = true ∧
      node.kind.isOutput = false) :
    (graph.mergeEqual first second).result = .ok true ∧
      ∃ keep drop, graph.mergeDirection first second = (keep, drop) ∧
        graph.replace (keep.xor drop.inverted) drop.node =
          .ok (graph.mergeEqual first second).graph := by
  rcases direction : graph.mergeDirection first second with ⟨keep, drop⟩
  have isGate := isGate_of_mergeDirection direction different oneGate
    (firstTarget.imp fun node target => ⟨target.1, target.2.2⟩)
  have replaceable : ∃ old, graph.Replaceable (keep.xor drop.inverted) drop.node old := by
    rcases mergeDirection_cases direction with ⟨rfl, rfl⟩ | ⟨rfl, rfl⟩
    · rcases secondTarget with ⟨old, found, active, -⟩
      exact ⟨old, different, found, (isGate_of_node? found).symm.trans isGate, active, firstTarget⟩
    · rcases firstTarget with ⟨old, found, active, -⟩
      exact ⟨old, different.symm, found, (isGate_of_node? found).symm.trans isGate, active,
        secondTarget⟩
  rcases replaceable with ⟨old, replaceable⟩
  have success := replace_eq_ok_iff.mpr ⟨old, replaceable, rfl⟩
  have merged : (graph.mergeEqual first second).result = .ok true ∧
      graph.replace (keep.xor drop.inverted) drop.node =
        .ok (graph.mergeEqual first second).graph := by
    simp only [Graph.mergeEqual, direction, isGate, success, Bool.not_true, Bool.false_eq_true,
      if_false, and_self]
  exact ⟨merged.1, keep, drop, rfl, merged.2⟩

theorem Linked.not_sees_of_merge (linked : graph.Linked) {keep drop : Literal}
    {merged : Graph} (direction : graph.mergeDirection first second = (keep, drop))
    (success : graph.replace (keep.xor drop.inverted) drop.node = .ok merged) :
    ¬graph.Sees keep.node drop.node := by
  rcases replace_eq_ok_iff.mp success with ⟨old, replaceable, -⟩
  exact linked.not_sees_mergeDirection direction replaceable.different
    replaceable.readable_target

theorem WellFormed.mergeEqual (wellFormed : graph.WellFormed) (first second : Literal) :
    (graph.mergeEqual first second).graph.WellFormed := by
  rcases graph.mergeEqual_cases first second with ⟨same, -⟩ | ⟨keep, drop, direction, success, -⟩
  · rwa [same]
  · have unseen := wellFormed.not_sees_of_merge direction success
    exact wellFormed.wellFormed_replace success unseen

theorem WellFormed.frame_mergeEqual (wellFormed : graph.WellFormed) (first second : Literal) :
    graph.Frame (graph.mergeEqual first second).graph := by
  rcases graph.mergeEqual_cases first second with ⟨same, -⟩ | ⟨keep, drop, -, success, -⟩
  · rw [same]
    exact .refl graph
  · exact wellFormed.frame_replace success

theorem SameSignal.plain_of_xor {keep drop : Literal} (same : graph.SameSignal drop keep) :
    graph.SameSignal (.plain drop.node) (keep.xor drop.inverted) := by
  intro assignment value
  rw [carries_plain_iff, carries_xor_iff, takes_iff_carries]
  exact same assignment _

theorem SameSignal.of_mergeDirection {keep drop : Literal}
    (direction : graph.mergeDirection first second = (keep, drop))
    (same : graph.SameSignal first second) :
    graph.SameSignal (.plain drop.node) (keep.xor drop.inverted) := by
  apply SameSignal.plain_of_xor
  rcases mergeDirection_cases direction with ⟨rfl, rfl⟩ | ⟨rfl, rfl⟩
  · exact same.symm
  · exact same

theorem WellFormed.preserves_mergeEqual (wellFormed : graph.WellFormed)
    (same : graph.SameSignal first second) :
    graph.Preserves (graph.mergeEqual first second).graph := by
  rcases graph.mergeEqual_cases first second with
    ⟨unchanged, -⟩ | ⟨keep, drop, direction, success, -⟩
  · rw [unchanged]
    exact .refl graph
  · have unseen := wellFormed.not_sees_of_merge direction success
    exact wellFormed.preserves_replace success unseen (same.of_mergeDirection direction)

theorem events_prove {State : Type} [Backend State] (graph : Graph) (left right : Literal)
    (backend : State) : (graph.prove left right backend).journal.events = [] := by
  rw [prove]
  simp only
  split
  · rfl
  · rfl
  · rw [askDifferent]
    split
    · rfl
    · rfl
    · simp only
      split <;> rfl

end Graph

/-! ## Comparisons -/

namespace Scan

variable {State : Type} [Backend State] {scan after : Scan State} {pivot member : Literal}

def events (scan : Scan State) : List Event :=
  Journal.events scan.journal.reverse

omit [Backend State] in
theorem events_append (scan : Scan State) (entries : Journal) :
    (scan.append entries).events = scan.events ++ entries.events := by
  simp only [events, append, List.reverse_append, List.reverse_reverse, Journal.events_append]

inductive Compared (scan after : Scan State) (pivot member : Literal) :
    Result (Option Bool) → Prop
  | idle {answer : Result (Option Bool)} (graph : after.graph = scan.graph)
      (events : after.events = scan.events)
      (merges : after.report.merges = scan.report.merges) (unmerged : answer ≠ .ok (some true)) :
      Compared scan after pivot member answer
  | merged (proved : (scan.graph.prove pivot member scan.backend).result = .ok true)
      (graph : after.graph = (scan.graph.mergeEqual pivot member).graph)
      (result : (scan.graph.mergeEqual pivot member).result = .ok true)
      (events : after.events = scan.events ++ (scan.graph.mergeEqual pivot member).journal.events)
      (merges : after.report.merges = scan.report.merges + 1) :
      Compared scan after pivot member (.ok (some true))

theorem compared (scan : Scan State) (pivot member : Literal) :
    Compared scan (scan.compare pivot member).1 pivot member (scan.compare pivot member).2 := by
  rcases asked : scan.graph.prove pivot member scan.backend with ⟨backend, journal, answer⟩
  have silent : journal.events = [] := by
    have silence := scan.graph.events_prove pivot member scan.backend
    rwa [asked] at silence
  have untold : ({ scan with backend }.append journal).events = scan.events := by
    rw [events_append, silent, List.append_nil]
    rfl
  simp only [compare, asked]
  cases answer with
  | error failure => exact .idle rfl untold rfl (fun impossible => nomatch impossible)
  | ok equal =>
      cases equal with
      | false => exact .idle rfl untold rfl (fun impossible => nomatch impossible)
      | true =>
          have told : ({ ({ scan with backend }.append journal) with
              graph := (scan.graph.mergeEqual pivot member).graph }.append
                (scan.graph.mergeEqual pivot member).journal).events =
              scan.events ++ (scan.graph.mergeEqual pivot member).journal.events := by
            rw [events_append, ← untold]
            rfl
          rcases scan.graph.mergeEqual_cases pivot member with
            ⟨same, unmerged, nothing⟩ | ⟨-, -, -, -, result, -⟩
          · rw [nothing, List.append_nil] at told
            simp only
            split
            · exact .idle same told rfl (fun impossible => nomatch impossible)
            · rename_i isMerged result
              refine .idle same told ?_ ?_
              · cases isMerged with
                | false => rfl
                | true => exact absurd result unmerged
              · intro merged
                cases merged
                exact unmerged result
          · simp only
            split
            · rename_i refused
              cases result.symm.trans refused
            · rename_i isMerged accepted
              cases result.symm.trans accepted
              exact .merged (by rw [asked]) rfl result told rfl

/-- A pivot outlives every merge but the one that takes it away, and this one leaves the other
member. -/
theorem Compared.isActive_pivot {isMerged : Option Bool}
    (compared : Compared scan after pivot member (.ok isMerged))
    (pivotActive : scan.graph.isActive pivot.node = true)
    (memberActive : scan.graph.isActive member.node = true)
    (gone : isMerged = some true → after.graph.isActive member.node = false) :
    after.graph.isActive pivot.node = true := by
  cases compared with
  | idle graph => rw [graph, pivotActive]
  | merged proved graph result =>
      have memberGone := gone rfl
      rw [graph] at memberGone ⊢
      rcases scan.graph.mergeEqual_cases pivot member with
        ⟨-, unmerged, -⟩ | ⟨keep, drop, direction, success, -⟩
      · exact absurd result unmerged
      · rcases Graph.replace_eq_ok_iff.mp success with ⟨old, replaceable, -⟩
        have different : keep.node ≠ drop.node := replaceable.different
        rw [Graph.isActive_replace success] at memberGone ⊢
        rcases Graph.mergeDirection_cases direction with ⟨rfl, rfl⟩ | ⟨rfl, rfl⟩
        · simp [pivotActive, different]
        · simp [memberActive, different] at memberGone

end Scan

/-! ## Scans -/

namespace Scan

variable {State : Type} [Backend State]

def Leaves (Holds : Scan State → Prop) (Fails : Scan State → Error → Prop) :
    Scan State × Option Error → Prop
  | (after, none) => Holds after
  | (after, some failure) => Fails after failure

/-- What comparisons keep true, and what is true when one of them fails. `Pairs` says which
literals are compared. -/
structure Steps (Pairs : Literal → Literal → Prop) (Holds : Scan State → Prop)
    (Fails : Scan State → Error → Prop) : Prop where
  goesOn : ∀ {scan after : Scan State} {pivot member : Literal} {verdict : Option Bool},
    Holds scan → Pairs pivot member → scan.graph.isActive pivot.node = true →
      scan.graph.isActive member.node = true →
        scan.compare pivot member = (after, .ok verdict) → Holds after
  fails : ∀ {scan after : Scan State} {pivot member : Literal} {failure : Error},
    Holds scan → Pairs pivot member → scan.graph.isActive pivot.node = true →
      scan.graph.isActive member.node = true →
        scan.compare pivot member = (after, .error failure) → Fails after failure

namespace Steps

variable {Pairs : Literal → Literal → Prop} {Holds : Scan State → Prop}
  {Fails : Scan State → Error → Prop} (steps : Steps Pairs Holds Fails)

include steps

theorem scanPivot (limit : Nat) {pivot : Literal} {members : List Literal} (failures : Nat)
    (scan : Scan State) (holds : Holds scan) (active : scan.graph.isActive pivot.node = true)
    (pairs : ∀ member ∈ members, Pairs pivot member) :
    Leaves Holds Fails (scan.scanPivot limit pivot members failures) := by
  induction members generalizing failures scan with
  | nil => exact holds
  | cons member others induction =>
      rcases List.forall_mem_cons.mp pairs with ⟨pair, pairs⟩
      rw [Scan.scanPivot]
      by_cases memberActive : scan.graph.isActive member.node = true
      · rw [if_neg (by simp [memberActive])]
        split
        · exact holds
        · have compared := scan.compared pivot member
          rcases outcome : scan.compare pivot member with ⟨after, answer⟩
          rw [outcome] at compared
          cases answer with
          | error failure => exact steps.fails holds pair active memberActive outcome
          | ok verdict =>
              have later := steps.goesOn holds pair active memberActive outcome
              have stays := compared.isActive_pivot active memberActive
              cases verdict with
              | none =>
                  exact induction (failures + 1) after later
                    (stays fun impossible => nomatch impossible) pairs
              | some isMerged =>
                  simp only
                  split
                  · exact later
                  · rename_i other
                    refine induction 0 after later (stays fun merged => ?_) pairs
                    cases merged
                    simpa using other
      · rw [if_pos (by simp [memberActive])]
        exact induction failures scan holds active pairs

theorem scanClass (limit : Nat) {members : List Literal} (scan : Scan State) (holds : Holds scan)
    (pairs : members.Pairwise Pairs) : Leaves Holds Fails (scan.scanClass limit members) := by
  induction members generalizing scan with
  | nil => exact holds
  | cons pivot others induction =>
      rcases List.pairwise_cons.mp pairs with ⟨pivotPairs, pairs⟩
      rw [Scan.scanClass]
      by_cases active : scan.graph.isActive pivot.node = true
      · rw [if_neg (by simp [active])]
        have scanned := steps.scanPivot limit 0 scan holds active pivotPairs
        rcases outcome : scan.scanPivot limit pivot others 0 with ⟨after, failure?⟩
        rw [outcome] at scanned
        cases failure? with
        | some failure => exact scanned
        | none => exact induction after scanned pairs
      · rw [if_pos (by simp [active])]
        exact induction scan holds pairs

theorem scanClasses (limit : Nat) {classes : List (List Literal)} (scan : Scan State)
    (holds : Holds scan) (pairs : ∀ members ∈ classes, members.Pairwise Pairs) :
    Leaves Holds Fails (scan.scanClasses limit classes) := by
  induction classes generalizing scan with
  | nil => exact holds
  | cons members others induction =>
      rcases List.forall_mem_cons.mp pairs with ⟨membersPairs, pairs⟩
      rw [Scan.scanClasses]
      have scanned := steps.scanClass limit scan holds membersPairs
      rcases outcome : scan.scanClass limit members with ⟨after, failure?⟩
      rw [outcome] at scanned
      cases failure? with
      | some failure => exact scanned
      | none => exact induction after scanned pairs

end Steps

theorem Steps.scanAll {Holds : Scan State → Prop} {Fails : Scan State → Error → Prop}
    (steps : Steps (fun _ _ => True) Holds Fails) (limit : Nat) (classes : List (List Literal))
    (scan : Scan State) (holds : Holds scan) :
    Leaves Holds Fails (scan.scanClasses limit classes) :=
  steps.scanClasses limit scan holds fun _ _ => List.pairwise_of_forall fun _ _ => trivial

structure Keeps (State : Type) [Backend State] (Holds : Graph → Prop) : Prop where
  merge : ∀ (graph : Graph) (backend : State) (pivot member : Literal), Holds graph →
    (graph.prove pivot member backend).result = .ok true →
      Holds (graph.mergeEqual pivot member).graph

namespace Keeps

variable {Holds : Graph → Prop} (keeps : Keeps State Holds)

include keeps

theorem compare (pivot member : Literal) (scan : Scan State) (holds : Holds scan.graph) :
    Holds (scan.compare pivot member).1.graph := by
  have compared := scan.compared pivot member
  rcases outcome : scan.compare pivot member with ⟨after, answer⟩
  rw [outcome] at compared
  cases compared with
  | idle graph => rwa [graph]
  | merged proved graph =>
      rw [graph]
      exact keeps.merge scan.graph scan.backend pivot member holds proved

theorem steps : Steps (fun _ _ => True) (fun scan : Scan State => Holds scan.graph)
    (fun scan _ => Holds scan.graph) where
  goesOn {scan after pivot member verdict} holds _ _ _ compared := by
    have kept := keeps.compare pivot member scan holds
    rwa [compared] at kept
  fails {scan after pivot member failure} holds _ _ _ compared := by
    have kept := keeps.compare pivot member scan holds
    rwa [compared] at kept

theorem run (sweep : ∀ graph, Holds graph → Holds graph.sweep) (options : ReductionOptions)
    (graph : Graph) (partition : Partition) (backend : State) (holds : Holds graph) :
    Holds (Reduction.run options graph partition backend).graph := by
  have scanned := keeps.steps.scanAll options.maxFailures partition.classes
    ⟨graph, backend, {}, []⟩ holds
  rw [Reduction.run]
  rcases outcome : Scan.scanClasses options.maxFailures partition.classes
    ⟨graph, backend, {}, []⟩ with ⟨scan, failure?⟩
  rw [outcome] at scanned
  cases failure? with
  | some failure => exact scanned
  | none => exact sweep scan.graph scanned

end Keeps

theorem keeps_preserves [SoundBackend State] (start : Graph) :
    Keeps State fun graph => graph.WellFormed ∧ start.Preserves graph where
  merge _ _ pivot member holds proved :=
    ⟨holds.1.mergeEqual pivot member,
      holds.2.trans (holds.1.preserves_mergeEqual (holds.1.sameSignal_of_prove proved))⟩

/-- A back end that lies can spoil functions, but not what every replacement keeps that leaves
no cycle. -/
theorem keeps_of_replace {Holds : Graph → Prop}
    (linked : ∀ {graph : Graph}, Holds graph → graph.Linked)
    (replace : ∀ {graph replaced : Graph} {replacement : Literal} {gate : Nat}, Holds graph →
      graph.replace replacement gate = .ok replaced → ¬graph.Sees replacement.node gate →
        Holds replaced) : Keeps State Holds where
  merge graph _ pivot member holds _ := by
    rcases graph.mergeEqual_cases pivot member with
      ⟨same, -⟩ | ⟨keep, drop, direction, success, -⟩
    · rwa [same]
    · have unseen := (linked holds).not_sees_of_merge direction success
      exact replace holds success unseen

theorem keeps_consistent : Keeps State Graph.Consistent :=
  keeps_of_replace (fun consistent => consistent.toLinked)
    fun consistent success unseen => consistent.replace success unseen

theorem keeps_tidy : Keeps State Graph.Tidy :=
  keeps_of_replace (fun tidy => tidy.toLinked)
    fun tidy success unseen => tidy.replace success unseen

end Scan

theorem Reduction.graph_reduce {State : Type} [Backend State] (options : ReductionOptions)
    (simulation : SimulationOptions) (graph : Graph) (backend : State) :
    let hashed := structuralHash.run graph
    let session := Session.madeUp hashed.graph simulation .absent
    let reduced := reduce options simulation graph backend
    reduced.graph = hashed.graph ∨ reduced.graph = session.graph ∨
      reduced.graph = (run options session.graph session.partition backend).graph := by
  intro hashed session reduced
  simp only [reduced, reduce]
  split
  · exact .inl rfl
  · split
    · exact .inr (.inl rfl)
    · exact .inr (.inr rfl)

end AndInverter
