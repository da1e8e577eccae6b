import AndInverter.Equivalence.Query
import AndInverter.Proofs.Equivalence.Encoding
import AndInverter.Proofs.Graph.Construction

namespace AndInverter

/-! Equivalence queries. What a query asks of the back end is satisfiable exactly when
some assignment of the inputs tells the two literals apart, whatever the back end held
before. A query about a node that is not there, or not active, ends before the back end
is asked. -/

namespace Graph

variable {graph : Graph} {left right : Literal}

/-! ## Cones -/

theorem exists_visits_of_cones {finished : Finished} {first second : Nat}
    (walked : graph.cones first second = (finished, none)) :
    ∃ middle, (graph.coneExplorer first).Visits [] [first] (.none graph.size) (middle, none) ∧
      (graph.coneExplorer second).Visits [] [second] middle (finished, none) := by
  have firstVisits := (graph.coneExplorer first).visits_explore [first]
  rw [cones] at walked
  cases explored : (graph.coneExplorer first).explore [first] with
  | mk middle failure? =>
      rw [explored] at walked firstVisits
      cases failure? with
      | some failure => cases walked
      | none =>
          have sorted : (graph.coneExplorer second).Sorted middle.nodes :=
            sorted_coneExplorer firstVisits.sorted
          have secondVisits := Explorer.visits_exploreFrom [second] sorted
          simp only at walked
          rw [walked] at secondVisits
          exact ⟨middle, firstVisits, secondVisits⟩

theorem cones_eq_none {finished : Finished} {first second : Nat}
    (walked : graph.cones first second = (finished, none)) :
    (graph.coneExplorer second).Sorted finished.nodes ∧
      first ∈ finished.nodes ∧ second ∈ finished.nodes := by
  rcases exists_visits_of_cones walked with ⟨middle, firstVisits, secondVisits⟩
  exact ⟨secondVisits.sorted,
    secondVisits.kept (firstVisits.finished rfl first (List.mem_singleton_self first)),
    secondVisits.finished rfl second (List.mem_singleton_self second)⟩

theorem reaches_coneExplorer (root : Nat) : (graph.coneExplorer root).Reaches = graph.Sees := by
  rw [Explorer.Reaches, leads_coneExplorer]
  rfl

theorem mem_cones_iff {finished : Finished} {first second : Nat}
    (walked : graph.cones first second = (finished, none)) {id : Nat} :
    id ∈ finished.nodes ↔ graph.Sees first id ∨ graph.Sees second id := by
  constructor
  · intro member
    rcases exists_visits_of_cones walked with ⟨middle, firstVisits, secondVisits⟩
    rcases firstVisits.extends_before with ⟨early, firstNodes, firstReached⟩
    rcases secondVisits.extends_before with ⟨late, secondNodes, secondReached⟩
    have nodes : finished.nodes = late ++ early :=
      secondNodes.trans (congrArg (late ++ ·) (firstNodes.trans (List.append_nil early)))
    rw [reaches_coneExplorer] at firstReached secondReached
    rw [nodes, List.mem_append] at member
    rcases member with inLate | inEarly
    · rcases secondReached id inLate with ⟨root, rootMember, sees⟩
      exact .inr (List.mem_singleton.mp rootMember ▸ sees)
    · rcases firstReached id inEarly with ⟨root, rootMember, sees⟩
      exact .inl (List.mem_singleton.mp rootMember ▸ sees)
  · rcases cones_eq_none walked with ⟨sorted, firstMember, secondMember⟩
    rw [← reaches_coneExplorer second]
    rintro (sees | sees)
    · exact sorted.mem_of_reaches firstMember sees
    · exact sorted.mem_of_reaches secondMember sees

theorem WellFormed.cones_eq (wellFormed : graph.WellFormed) {first second : Nat}
    (firstActive : graph.isActive first = true) (secondActive : graph.isActive second = true) :
    ∃ finished, graph.cones first second = (finished, none) := by
  have unstopped : ∀ root before, graph.isActive root = true →
      ((graph.coneExplorer root).exploreFrom [root] before).2 = none := by
    intro root before active
    apply Explorer.exploreFrom_eq_none fun id => graph.isActive id = true
    · intro id idActive
      refine ⟨_, coneBelow_eq_ok_iff.mpr ⟨idActive, rfl⟩, ?_⟩
      intro child member
      rcases List.mem_map.mp member with ⟨edge, edgeMember, rfl⟩
      exact ⟨wellFormed.isActive_driver _ _ idActive (reads_of_mem edgeMember), rfl⟩
    · rw [leads_coneExplorer]
      exact fun id _ => wellFormed.acyclic.not_transGen id
    · intro other member
      exact List.mem_singleton.mp member ▸ active
  unfold cones Explorer.explore
  have walked := unstopped first (.none (graph.coneExplorer first).bound) firstActive
  rcases explored : (graph.coneExplorer first).exploreFrom [first]
    (.none (graph.coneExplorer first).bound) with ⟨middle, failure?⟩
  rw [explored] at walked
  cases walked
  exact ⟨_, Prod.ext rfl (unstopped second middle secondActive)⟩

theorem cones_of_inactive {first second : Nat}
    (inactive : graph.isActive first = false ∨ graph.isActive second = false) :
    ∃ finished failure, graph.cones first second = (finished, some failure) := by
  rcases walked : graph.cones first second with ⟨finished, failure?⟩
  cases failure? with
  | some failure => exact ⟨finished, failure, rfl⟩
  | none =>
      rcases cones_eq_none walked with ⟨sorted, firstMember, secondMember⟩
      rw [isActive_of_sorted sorted firstMember, isActive_of_sorted sorted secondMember] at inactive
      rcases inactive with impossible | impossible <;> cases impossible

/-! ## The miter -/

section Miter

variable {State : Type} [Backend State] [TrackedBackend State]

open TrackedBackend (query clauses)

def miterState (encoding : Encoding State) (first second : SatLiteral) : State :=
  let (miter, backend) := Backend.newVariable encoding.backend
  Backend.assume [miter] (Backend.addFormula (.xorGate miter first second) backend)

omit [TrackedBackend State] in
theorem askDifferent_eq {encoding : Encoding State} {first second : SatLiteral}
    (leftEncoded : encoding.literal left = .ok first)
    (rightEncoded : encoding.literal right = .ok second) :
    (askDifferent left right encoding).backend =
        (Backend.solve (miterState encoding first second)).2 ∧
      (askDifferent left right encoding).result =
        match (Backend.solve (miterState encoding first second)).1 with
        | .error reason => .error (.solver reason)
        | .ok different => .ok !different := by
  simp only [askDifferent, leftEncoded, rightEncoded, miterState]
  rcases Backend.solve _ with ⟨answer, after⟩
  cases answer <;> exact ⟨rfl, rfl⟩

theorem holds_query_miterState {encoding : Encoding State} {first second : SatLiteral}
    {model : Nat → Bool} :
    (query (miterState encoding first second)).holds model = true ↔
      (clauses encoding.backend).holds model = true ∧
        (Backend.newVariable encoding.backend).1.holds model = true ∧
          first.holds model ≠ second.holds model := by
  simp only [query, miterState, TrackedBackend.clauses_assume, TrackedBackend.assumptions_assume,
    TrackedBackend.clauses_addFormula, TrackedBackend.clauses_newVariable, Formula.holds_append,
    Bool.and_eq_true, Formula.xorGate_holds]
  constructor
  · rintro ⟨⟨holds, differs⟩, unit⟩
    have raised : (Backend.newVariable encoding.backend).1.holds model = true := by
      simpa [Formula.units, Formula.holds, Clause.holds] using unit
    rw [raised] at differs
    exact ⟨holds, raised, by simpa using differs.symm⟩
  · rintro ⟨holds, raised, differ⟩
    refine ⟨⟨holds, ?_⟩, ?_⟩
    · rw [raised]
      simpa using differ
    · simpa [Formula.units, Formula.holds, Clause.holds] using raised

variable {nodes : List Nat} {encoding : Encoding State} {first second : SatLiteral}

/-- Values of the inputs that tell the literals apart extend to a model: the variable of
the miter is a fresh one. -/
theorem satisfiable_of_differ (encodes : encoding.Encodes graph nodes)
    (leftEncoded : encoding.literal left = .ok first)
    (rightEncoded : encoding.literal right = .ok second) {assignment : Assignment}
    {value other : Bool} (leftCarries : graph.Carries assignment left value)
    (rightCarries : graph.Carries assignment right other) (differ : value ≠ other) :
    (query (miterState encoding first second)).Satisfiable := by
  rcases encodes.extensible assignment with ⟨model, holds, shows⟩
  have agree : ∀ literal : SatLiteral, TrackedBackend.InUse encoding.backend literal.index →
      literal.holds (Function.update model (Backend.newVariable encoding.backend).1.index true) =
        literal.holds model := by
    intro literal used
    rw [SatLiteral.holds, SatLiteral.holds, Function.update_of_ne]
    intro same
    exact TrackedBackend.newVariable_fresh encoding.backend (same ▸ used)
  refine ⟨Function.update model (Backend.newVariable encoding.backend).1.index true, ?_⟩
  rw [holds_query_miterState]
  refine ⟨?_, ?_, ?_⟩
  · refine Eq.trans ?_ holds
    exact Formula.holds_congr fun clause member literal literalMember =>
      agree literal (encodes.inScope.clauses clause member literal literalMember)
  · rw [SatLiteral.holds, Function.update_self,
      TrackedBackend.newVariable_negated encoding.backend]
    rfl
  · rw [agree first (encodes.inUse_literal leftEncoded),
      agree second (encodes.inUse_literal rightEncoded),
      (shows.carries leftEncoded).unique leftCarries,
      (shows.carries rightEncoded).unique rightCarries]
    exact differ

theorem differ_of_satisfiable (encodes : encoding.Encodes graph nodes)
    (leftEncoded : encoding.literal left = .ok first)
    (rightEncoded : encoding.literal right = .ok second)
    (satisfiable : (query (miterState encoding first second)).Satisfiable) :
    ¬graph.SameSignal left right := by
  rcases satisfiable with ⟨model, satisfied⟩
  rcases holds_query_miterState.mp satisfied with ⟨holds, -, differ⟩
  have shows := encodes.determined model
    (fun id => (encoding.lookup id).any (·.holds model)) holds (by
      intro id literal node found _ _
      simp only [found, Option.any_some])
  intro same
  exact differ (((same _ _).mp (shows.carries leftEncoded)).unique (shows.carries rightEncoded))

end Miter

/-! ## Answers -/

section Answers

variable {State : Type} [Backend State] [TrackedBackend State]

theorem WellFormed.prove_eq (wellFormed : graph.WellFormed) (backend : State)
    {finished : Finished} (walked : graph.cones left.node right.node = (finished, none)) :
    ∃ asked : State,
      (graph.prove left right backend).backend = (Backend.solve asked).2 ∧
      (graph.prove left right backend).result =
        (match (Backend.solve asked).1 with
        | .error reason => .error (.solver reason)
        | .ok different => .ok !different) ∧
      ((TrackedBackend.query asked).Satisfiable ↔ ¬graph.SameSignal left right) := by
  rcases cones_eq_none walked with ⟨sorted, leftMember, rightMember⟩
  rcases wellFormed.encodes_addNodes sorted backend with ⟨encoding, added, encodes⟩
  rcases encodes.toFills.exists_literal leftMember with ⟨first, leftEncoded⟩
  rcases encodes.toFills.exists_literal rightMember with ⟨second, rightEncoded⟩
  have order : finished.order = finished.nodes.reverse := rfl
  have same : graph.prove left right backend = askDifferent left right encoding := by
    simp only [prove, walked, order, added]
  rcases askDifferent_eq leftEncoded rightEncoded with ⟨after, result⟩
  refine ⟨miterState encoding first second, same ▸ after, same ▸ result, ?_, ?_⟩
  · exact differ_of_satisfiable encodes leftEncoded rightEncoded
  · intro different
    by_contra unsatisfiable
    apply different
    have leftActive := isActive_of_sorted sorted leftMember
    have rightActive := isActive_of_sorted sorted rightMember
    apply wellFormed.sameSignal_of_imp leftActive
    intro assignment value leftCarries
    rcases wellFormed.exists_carries assignment rightActive with ⟨other, rightCarries⟩
    by_cases equal : value = other
    · exact equal ▸ rightCarries
    · exact absurd (satisfiable_of_differ encodes leftEncoded rightEncoded leftCarries
        rightCarries equal) unsatisfiable

omit [TrackedBackend State] in
theorem prove_of_cones_eq_some (backend : State) {finished : Finished} {failure : Error}
    (walked : graph.cones left.node right.node = (finished, some failure)) :
    ∃ other, (graph.prove left right backend).result = .error other ∧
      (graph.prove left right backend).backend =
        (Encoding.addNodes graph finished.order
          (.start graph.size (Backend.reset backend))).1.backend := by
  simp only [prove, walked]
  rcases Encoding.addNodes graph finished.order (.start graph.size (Backend.reset backend)) with
    ⟨encoding, failure?⟩
  cases failure? with
  | some other => exact ⟨other, rfl, rfl⟩
  | none => exact ⟨failure, rfl, rfl⟩

end Answers

theorem WellFormed.sameSignal_of_prove {State : Type} [Backend State] [SoundBackend State]
    (wellFormed : graph.WellFormed) {backend : State}
    (proved : (graph.prove left right backend).result = .ok true) :
    graph.SameSignal left right := by
  rcases walked : graph.cones left.node right.node with ⟨finished, failure?⟩
  cases failure? with
  | some failure =>
      rcases prove_of_cones_eq_some backend walked with ⟨other, refused, -⟩
      rw [refused] at proved
      cases proved
  | none =>
      rcases wellFormed.prove_eq backend walked with ⟨asked, -, result, question⟩
      rw [result] at proved
      rcases answer : (Backend.solve asked).1 with reason | different
      · rw [answer] at proved
        cases proved
      · rw [answer] at proved
        cases different with
        | true => cases proved
        | false =>
            by_contra different
            exact SoundBackend.unsatisfiable_right asked answer (question.mpr different)

/-! ## Refused queries -/

def Unasked {State : Type} (before after : Recorder State) : Prop :=
  after.solves = before.solves ∧ ∀ answer, Call.solve answer ∉ after.calls

theorem stable_unasked {State : Type} [Backend State] (before : Recorder State) :
    Backend.Stable (Unasked before) where
  newVariable recorder unasked := by
    refine ⟨unasked.1, fun answer member => ?_⟩
    rcases List.mem_cons.mp member with impossible | earlier
    · cases impossible
    · exact unasked.2 answer earlier
  addClause recorder clause unasked := by
    refine ⟨unasked.1, fun answer member => ?_⟩
    rcases List.mem_cons.mp member with impossible | earlier
    · cases impossible
    · exact unasked.2 answer earlier

theorem prove_of_inactive {State : Type} [Backend State] (recorder : Recorder State)
    (inactive : graph.isActive left.node = false ∨ graph.isActive right.node = false) :
    (∃ failure, (graph.prove left right recorder).result = .error failure) ∧
      Unasked recorder (graph.prove left right recorder).backend := by
  rcases cones_of_inactive inactive with ⟨finished, failure, walked⟩
  rcases prove_of_cones_eq_some recorder walked with ⟨other, result, backend⟩
  refine ⟨⟨other, result⟩, ?_⟩
  rw [backend]
  apply (stable_unasked recorder).addNodes
  refine ⟨rfl, ?_⟩
  intro answer member
  rcases List.mem_singleton.mp member with ⟨⟩

/-! ## Decisions -/

/-- A query about active nodes puts one question to the back end, whatever this one is; before
it, the back end is only reset and given variables and clauses. -/
theorem WellFormed.prove_asks {State : Type} [Backend State] (wellFormed : graph.WellFormed)
    (leftActive : graph.isActive left.node = true)
    (rightActive : graph.isActive right.node = true) {Holds : State → Prop}
    (stable : Backend.Stable Holds) (backend : State) (holds : Holds (Backend.reset backend)) :
    ∃ (prepared : State) (miter : SatLiteral), Holds prepared ∧
      (graph.prove left right backend).backend =
        (Backend.solve (Backend.assume [miter] prepared)).2 ∧
      (graph.prove left right backend).result =
        match (Backend.solve (Backend.assume [miter] prepared)).1 with
        | .error reason => .error (.solver reason)
        | .ok different => .ok !different := by
  rcases wellFormed.cones_eq leftActive rightActive with ⟨finished, walked⟩
  rcases cones_eq_none walked with ⟨sorted, leftMember, rightMember⟩
  rcases exists_addNodes sorted (Backend.reset backend) with ⟨encoding, added, fills⟩
  rcases fills.exists_literal leftMember with ⟨first, leftEncoded⟩
  rcases fills.exists_literal rightMember with ⟨second, rightEncoded⟩
  have order : finished.order = finished.nodes.reverse := rfl
  have same : graph.prove left right backend = askDifferent left right encoding := by
    simp only [prove, walked, order, added]
  have encoded : Holds encoding.backend := by
    have start : Holds (Encoding.start graph.size (Backend.reset backend)).backend := holds
    have kept := stable.addNodes graph finished.nodes.reverse start
    rwa [added] at kept
  rcases askDifferent_eq leftEncoded rightEncoded with ⟨after, result⟩
  rw [same]
  exact ⟨_, _, stable.addFormula _ (stable.newVariable encoding.backend encoded), after, result⟩

theorem WellFormed.prove_of_active {State : Type} [Backend State] [LawfulBackend State]
    (wellFormed : graph.WellFormed) (backend : State)
    (leftActive : graph.isActive left.node = true)
    (rightActive : graph.isActive right.node = true) :
    ∃ asked : State, (graph.prove left right backend).backend = (Backend.solve asked).2 ∧
      match (Backend.solve asked).1 with
      | .ok _ => ∃ answer, (graph.prove left right backend).result = .ok answer ∧
          (answer = true ↔ graph.SameSignal left right)
      | .error reason => (graph.prove left right backend).result = .error (.solver reason) := by
  rcases wellFormed.cones_eq leftActive rightActive with ⟨finished, walked⟩
  rcases wellFormed.prove_eq backend walked with ⟨asked, after, result, question⟩
  refine ⟨asked, after, ?_⟩
  rcases solved : (Backend.solve asked).1 with reason | different
  · rwa [solved] at result
  · rw [solved] at result
    refine ⟨!different, result, ?_⟩
    have right := (LawfulBackend.solve_right asked different solved).trans question
    cases different <;> simpa using right

/-- A query decides whether two active literals carry the same signal, unless its one
question is left unanswered; about other literals it fails and asks nothing. What the back
end holds at the beginning does not matter. -/
theorem WellFormed.prove_decides {State : Type} [Backend State] [LawfulBackend State]
    (wellFormed : graph.WellFormed) (left right : Literal) (backend : State) :
    (graph.isActive left.node = true ∧ graph.isActive right.node = true →
      ∃ asked : State, (graph.prove left right backend).backend = (Backend.solve asked).2 ∧
        match (Backend.solve asked).1 with
        | .ok _ => ∃ answer, (graph.prove left right backend).result = .ok answer ∧
            (answer = true ↔ graph.SameSignal left right)
        | .error reason =>
            (graph.prove left right backend).result = .error (.solver reason)) ∧
    (¬(graph.isActive left.node = true ∧ graph.isActive right.node = true) →
      (∃ failure, (graph.prove left right backend).result = .error failure) ∧
        ∀ recorder : Recorder State,
          (∃ failure, (graph.prove left right recorder).result = .error failure) ∧
            Unasked recorder (graph.prove left right recorder).backend) := by
  constructor
  · intro ⟨leftActive, rightActive⟩
    exact wellFormed.prove_of_active backend leftActive rightActive
  · intro unusable
    have inactive : graph.isActive left.node = false ∨ graph.isActive right.node = false := by
      rw [← Bool.not_eq_true, ← Bool.not_eq_true]
      exact not_and_or.mp unusable
    constructor
    · rcases cones_of_inactive inactive with ⟨finished, failure, walked⟩
      rcases prove_of_cones_eq_some backend walked with ⟨other, result, -⟩
      exact ⟨other, result⟩
    · exact fun recorder => prove_of_inactive recorder inactive

theorem prove_decides_twins :
    twins.WellFormed ∧ twins.isActive 3 = true ∧ twins.isActive 4 = true ∧
      ∃ answer, (twins.prove (.plain 3) (.plain 4) Solver.empty).result = .ok answer ∧
        (answer = true ↔ twins.SameSignal (.plain 3) (.plain 4)) := by
  have wellFormed := consistent_twins.toWellFormed
  rcases (wellFormed.prove_decides (.plain 3) (.plain 4) Solver.empty).1
    ⟨by decide, by decide⟩ with ⟨asked, -, decided⟩
  exact ⟨wellFormed, by decide, by decide, decided⟩

end Graph

end AndInverter
