import AndInverter.Graph.Edit
import AndInverter.Proofs.Graph.Consistency
import AndInverter.Proofs.Graph.Growth

namespace AndInverter

/-! Edits in place, run. Changes of single nodes add up to one change of all nodes. A
construction as an edit does what the construction of the graph as a whole does, and one
that fails leaves no trace. -/

namespace Graph

theorem ext_of_node? {first second : Graph} (size : first.size = second.size)
    (nodes : ∀ id, first.node? id = second.node? id) (inputs : first.inputs = second.inputs)
    (outputs : first.outputs = second.outputs) : first = second := by
  rcases first with ⟨firstSlots, firstInputs, firstOutputs⟩
  rcases second with ⟨secondSlots, secondInputs, secondOutputs⟩
  simp only at inputs outputs
  subst inputs outputs
  congr 1
  apply Array.ext size
  intro id inFirst inSecond
  have same := nodes id
  simp only [node?, Array.getElem?_eq_getElem inFirst, Array.getElem?_eq_getElem inSecond,
    Option.join_some] at same
  exact same

theorem mapNodes_congr {graph : Graph} {change other : Nat → Node → Node}
    (agree : ∀ id node, graph.node? id = some node → change id node = other id node) :
    graph.mapNodes change = graph.mapNodes other := by
  refine ext_of_node? (by simp) ?_ rfl rfl
  intro id
  rw [node?_mapNodes, node?_mapNodes]
  cases found : graph.node? id with
  | none => rfl
  | some node => exact congrArg some (agree id node found)

theorem mapNodes_mapNodes (graph : Graph) (first second : Nat → Node → Node) :
    (graph.mapNodes first).mapNodes second =
      graph.mapNodes fun id node => second id (first id node) := by
  refine ext_of_node? (by simp) ?_ rfl rfl
  intro id
  rw [node?_mapNodes, node?_mapNodes, node?_mapNodes, Option.map_map]
  rfl

theorem mapNodes_self (graph : Graph) : graph.mapNodes (fun _ node => node) = graph := by
  refine ext_of_node? (by simp) ?_ rfl rfl
  intro id
  rw [node?_mapNodes, Option.map_id']

theorem modify_eq_mapNodes (graph : Graph) (id : Nat) (change : Node → Node) :
    graph.modify id change =
      graph.mapNodes fun other node => if other = id then change node else node := by
  refine ext_of_node? (by simp) ?_ rfl rfl
  intro other
  rw [node?_modify, node?_mapNodes]
  by_cases same : id = other
  · simp [same]
  · simp [same, Ne.symm same]

@[simp] theorem isDefined_mapNodes (graph : Graph) (change : Nat → Node → Node) (id : Nat) :
    (graph.mapNodes change).isDefined id = graph.isDefined id := by
  rw [isDefined, isDefined, node?_mapNodes, Option.isSome_map]

@[simp] theorem isDefined_modify (graph : Graph) (id : Nat) (change : Node → Node) (other : Nat) :
    (graph.modify id change).isDefined other = graph.isDefined other := by
  rw [modify_eq_mapNodes, isDefined_mapNodes]

theorem isDefined_of_node? {graph : Graph} {id : Nat} {node : Node}
    (found : graph.node? id = some node) : graph.isDefined id = true := by
  simp [isDefined, found]

theorem isDefined_of_checkFanin {graph : Graph} {fanin : Literal}
    (checked : graph.checkFanin fanin = .ok ()) : graph.isDefined fanin.node = true := by
  rcases checkFanin_eq_ok_iff.mp checked with ⟨node, found, -⟩
  exact isDefined_of_node? found

theorem isDefined_of_claim {graph claimed : Graph} {id : Nat} {node : Node}
    (claiming : graph.claim id node = .ok claimed) {other : Nat}
    (defined : graph.isDefined other = true) : claimed.isDefined other = true := by
  rcases claim_eq_ok claiming with ⟨-, -, -, -, nodes⟩
  rw [isDefined, nodes]
  split
  · rfl
  · exact defined

end Graph

namespace Edit

variable {α β : Type} {graph middle : Graph}

/-! ## Runs -/

theorem run_bind_of_ok {first : Edit α} {next : α → Edit β} {value : α}
    (ran : first.run graph = .ok value middle) :
    (first >>= next).run graph = (next value).run middle := by
  change EStateM.bind first next graph = _
  rw [EStateM.bind, show first graph = _ from ran]
  rfl

theorem run_bind_of_error {first : Edit α} {next : α → Edit β} {failure : Error}
    (ran : first.run graph = .error failure middle) :
    (first >>= next).run graph = .error failure middle := by
  change EStateM.bind first next graph = _
  rw [EStateM.bind, show first graph = _ from ran]

theorem run_get_bind {next : Graph → Edit β} : (get >>= next).run graph = (next graph).run graph :=
  rfl

theorem run_modify_bind {change : Graph → Graph} {next : PUnit → Edit β} :
    (modify change >>= next).run graph = (next ⟨⟩).run (change graph) :=
  rfl

theorem run_inspect_of_ok {look : Graph → Result α} {value : α} (looked : look graph = .ok value) :
    (inspect look).run graph = .ok value graph := by
  change inspect look graph = _
  rw [inspect, looked]

theorem run_inspect_of_error {look : Graph → Result α} {failure : Error}
    (looked : look graph = .error failure) :
    (inspect look).run graph = .error failure graph := by
  change inspect look graph = _
  rw [inspect, looked]

theorem run_step_of_ok {change : Graph → Result Graph} (changed : change graph = .ok middle) :
    (step change).run graph = .ok () middle := by
  change step change graph = _
  rw [step, changed]

theorem run_step_of_error {change : Graph → Result Graph} {failure : Error}
    (failed : change graph = .error failure) : (step change).run graph = .error failure graph := by
  change step change graph = _
  rw [step, failed]

theorem run_update {id : Nat} (defined : graph.isDefined id = true) (change : Node → Node) :
    (update id change).run graph = .ok () (graph.modify id change) := by
  rcases Option.isSome_iff_exists.mp defined with ⟨node, found⟩
  apply run_step_of_ok
  rw [Graph.update, Graph.node_eq_ok_iff.mpr found]
  rfl

/-- The same change at each node of a list, where to make it again is to make it once. -/
theorem run_forM_update {change : Node → Node}
    (idempotent : ∀ node, change (change node) = change node) {ids : List Nat}
    (defined : ∀ id ∈ ids, graph.isDefined id = true) :
    (ids.forM fun id => update id change).run graph =
      .ok ⟨⟩ (graph.mapNodes fun id node => if id ∈ ids then change node else node) := by
  induction ids generalizing graph with
  | nil =>
      simp only [List.not_mem_nil, if_false, Graph.mapNodes_self]
      rfl
  | cons head tail induction =>
      change (update head change >>= fun _ => tail.forM fun id => update id change).run graph = _
      rw [run_bind_of_ok (run_update (defined head (List.mem_cons_self ..)) change),
        Graph.modify_eq_mapNodes, induction, Graph.mapNodes_mapNodes]
      · congr 1
        apply Graph.mapNodes_congr
        intro id node _
        by_cases first : id = head
        -- The tail may name the head again, and changes it once more then.
        · simp [first, idempotent]
        · simp [first]
      · intro id member
        rw [Graph.isDefined_mapNodes]
        exact defined id (List.mem_cons_of_mem head member)

/-! ## Construction -/

theorem eq_of_reserve {id : Nat} {reserved : Graph} (reserving : graph.reserve id = .ok reserved)
    (taken : reserved.isDefined id = true) : reserved = graph := by
  rcases Graph.reserve_eq_ok reserving with ⟨size, inputs, outputs, nodes⟩
  refine Graph.ext_of_node? ?_ nodes inputs outputs
  rcases Option.isSome_iff_exists.mp taken with ⟨node, found⟩
  rw [nodes] at found
  have inside := Graph.lt_size_of_node? found
  omega

theorem run_claim (id : Nat) (node : Node) (graph : Graph) :
    (claim id node).run graph = match graph.claim id node with
      | .ok claimed => .ok () claimed
      | .error failure => .error failure graph := by
  rw [claim, Graph.claim]
  by_cases constant : id = 0
  · simp only [constant, if_true]
    rfl
  · simp only [constant, if_false]
    cases reserving : graph.reserve id with
    | error failure => exact run_bind_of_error (run_step_of_error reserving)
    | ok reserved =>
        refine (run_bind_of_ok (run_step_of_ok reserving)).trans ?_
        refine run_get_bind.trans ?_
        cases taken : reserved.isDefined id with
        | true =>
            simp only [bind, Except.bind, taken, if_true]
            exact congrArg (EStateM.Result.error _) (eq_of_reserve reserving taken)
        | false =>
            simp only [bind, Except.bind, taken]
            rfl

theorem run_connect {fanin : Literal} (defined : graph.isDefined fanin.node = true)
    (consumer : Nat) :
    (connect fanin consumer).run graph = .ok () (graph.connect fanin consumer) :=
  run_update defined _

theorem run_addInputAt (id : Nat) (graph : Graph) :
    (addInputAt id).run graph = match graph.addInputAt id with
      | .ok after => .ok id after
      | .error failure => .error failure graph := by
  have claiming := run_claim id (.ofKind .input) graph
  rw [addInputAt, Graph.addInputAt]
  cases claimed : graph.claim id (.ofKind .input) with
  | error failure =>
      rw [claimed] at claiming
      exact run_bind_of_error claiming
  | ok after =>
      rw [claimed] at claiming
      exact run_bind_of_ok claiming

theorem run_addGateAt (id : Nat) (left right : Literal) (graph : Graph) :
    (addGateAt id left right).run graph = match graph.addGateAt id left right with
      | .ok after => .ok id after
      | .error failure => .error failure graph := by
  rw [addGateAt, Graph.addGateAt]
  cases leftChecked : graph.checkFanin left with
  | error failure => exact run_bind_of_error (run_inspect_of_error leftChecked)
  | ok =>
      refine (run_bind_of_ok (run_inspect_of_ok leftChecked)).trans ?_
      cases rightChecked : graph.checkFanin right with
      | error failure => exact run_bind_of_error (run_inspect_of_error rightChecked)
      | ok =>
          refine (run_bind_of_ok (run_inspect_of_ok rightChecked)).trans ?_
          have claiming := run_claim id (.ofKind (.gate left right)) graph
          cases claimed : graph.claim id (.ofKind (.gate left right)) with
          | error failure =>
              rw [claimed] at claiming
              simp only [bind, Except.bind]
              exact run_bind_of_error claiming
          | ok after =>
              rw [claimed] at claiming
              have leftDefined := Graph.isDefined_of_checkFanin leftChecked
              have rightDefined := Graph.isDefined_of_checkFanin rightChecked
              simp only [bind, Except.bind]
              refine (run_bind_of_ok claiming).trans ?_
              refine (run_bind_of_ok
                (run_connect (Graph.isDefined_of_claim claimed leftDefined) id)).trans ?_
              refine run_bind_of_ok (run_connect ?_ id)
              rw [Graph.connect, Graph.isDefined_modify]
              exact Graph.isDefined_of_claim claimed rightDefined

theorem run_addOutput (driver : Literal) (graph : Graph) :
    (addOutput driver).run graph = match graph.addOutput driver with
      | .ok (id, after) => .ok id after
      | .error failure => .error failure graph := by
  rw [addOutput, Graph.addOutput]
  cases checked : graph.checkFanin driver with
  | error failure => exact run_bind_of_error (run_inspect_of_error checked)
  | ok =>
      rcases Graph.checkFanin_eq_ok_iff.mp checked with ⟨node, found, -⟩
      have old : driver.node ≠ graph.size := Nat.ne_of_lt (Graph.lt_size_of_node? found)
      refine (run_bind_of_ok (run_inspect_of_ok checked)).trans ?_
      refine run_get_bind.trans ?_
      refine run_modify_bind.trans ?_
      refine run_bind_of_ok (run_connect ?_ graph.size)
      rw [Graph.isDefined, Graph.node?_push, if_neg old, found]
      rfl

end Edit

namespace Construction

theorem addGate_eq (left right : Literal) (graph : Graph) : graph.addGate left right =
    (graph.addGateAt graph.size left right).map fun grown => (graph.size, grown) := by
  rw [Graph.addGate]
  cases graph.addGateAt graph.size left right <;> rfl

/-- A construction in place is the construction of the graph as a whole, and leaves the graph
as it was where that fails. -/
theorem run_edit (construction : Construction) (graph : Graph) :
    construction.edit.run graph = match construction.apply graph with
      | .ok (id, after) => .ok id after
      | .error failure => .error failure graph := by
  cases construction with
  | input => rfl
  | inputAt id =>
      rw [edit, Edit.run_addInputAt, apply]
      cases graph.addInputAt id <;> rfl
  | gate left right =>
      change (Edit.addGateAt graph.size left right).run graph = _
      rw [Edit.run_addGateAt, apply, addGate_eq]
      cases graph.addGateAt graph.size left right <;> rfl
  | gateAt id left right =>
      rw [edit, Edit.run_addGateAt, apply]
      cases graph.addGateAt id left right <;> rfl
  | output driver => exact Edit.run_addOutput driver graph

def place (graph : Graph) : Construction → Nat
  | .inputAt id => id
  | .gateAt id _ _ => id
  | .input => graph.size
  | .gate _ _ => graph.size
  | .output _ => graph.size

def Fits (graph : Graph) : Construction → Prop
  | .input => True
  | .inputAt id => graph.Free id
  | .gate left right => graph.Free graph.size ∧ graph.Readable left ∧ graph.Readable right
  | .gateAt id left right => graph.Free id ∧ graph.Readable left ∧ graph.Readable right
  | .output driver => graph.Readable driver

theorem map_eq_ok_iff {added : Result Graph} {given id : Nat} {after : Graph} :
    (added.map fun grown => (given, grown)) = .ok (id, after) ↔ given = id ∧ added = .ok after := by
  cases added with
  | error failure => simp [Except.map]
  | ok grown => simp [Except.map]

theorem exists_map_iff {added : Result Graph} {given : Nat} :
    (∃ id after, (added.map fun grown => (given, grown)) = .ok (id, after)) ↔
      ∃ after, added = .ok after := by
  simp only [map_eq_ok_iff, exists_and_left, exists_eq_left']

variable {construction : Construction} {graph after : Graph} {id : Nat}

theorem exists_apply_iff :
    (∃ id after, construction.apply graph = .ok (id, after)) ↔ construction.Fits graph := by
  cases construction with
  | input => exact ⟨fun _ => trivial, fun _ => ⟨_, _, rfl⟩⟩
  | inputAt given => exact exists_map_iff.trans Graph.exists_addInputAt_iff
  | gate left right =>
      rw [apply, addGate_eq]
      exact exists_map_iff.trans Graph.exists_addGateAt_iff
  | gateAt given left right => exact exists_map_iff.trans Graph.exists_addGateAt_iff
  | output driver =>
      constructor
      · rintro ⟨id, after, success⟩
        exact (Graph.grows_addOutput success).readable driver (List.mem_singleton_self driver)
      · intro readable
        rcases Graph.exists_addOutput readable with ⟨after, success⟩
        exact ⟨_, after, success⟩

theorem grows (success : construction.apply graph = .ok (id, after)) :
    id = construction.place graph ∧ graph.Grows id construction.kind after := by
  cases construction with
  | input =>
      cases success
      exact ⟨rfl, graph.grows_addInput⟩
  | inputAt given =>
      rcases map_eq_ok_iff.mp success with ⟨rfl, added⟩
      exact ⟨rfl, Graph.grows_addInputAt added⟩
  | gate left right =>
      rw [apply, addGate_eq] at success
      rcases map_eq_ok_iff.mp success with ⟨rfl, added⟩
      exact ⟨rfl, Graph.grows_addGateAt added⟩
  | gateAt given left right =>
      rcases map_eq_ok_iff.mp success with ⟨rfl, added⟩
      exact ⟨rfl, Graph.grows_addGateAt added⟩
  | output driver => exact ⟨Graph.addOutput_eq_ok success, Graph.grows_addOutput success⟩

end Construction

end AndInverter
