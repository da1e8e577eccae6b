import AndInverter.Graph.Construction
import AndInverter.Proofs.Graph.Consistency
import Mathlib.Algebra.Order.BigOperators.Group.List
import Mathlib.Algebra.Order.Ring.Nat

namespace AndInverter.Graph

/-! Construction. Whatever adds a node adds it to a free slot, lists it among the fanouts
of what it reads, and declares it where it is an input or an output. A graph stays linked
then, and it stays well-formed and consistent as long as what the new node reads is active. -/

/-! ## One more node -/

/-- One graph is another one with one more node. -/
structure Grows (before : Graph) (id : Nat) (kind : Kind) (after : Graph) : Prop where
  size : after.size = max before.size (id + 1)
  fresh : before.node? id = none
  added : after.node? id = some (.ofKind kind)
  missing : ∀ other, other ≠ id → before.node? other = none → after.node? other = none
  kept : ∀ other node, before.node? other = some node → ∃ changed,
    after.node? other = some changed ∧ changed.kind = node.kind ∧ changed.active = node.active ∧
      changed.fanouts = node.fanouts ++ after.edgesBetween other id
  still : ∀ other node changed, before.node? other = some node →
    after.node? other = some changed → changed = { node with fanouts := changed.fanouts }
  inputs : after.inputs = if kind.isInput then before.inputs ++ [id] else before.inputs
  outputs : after.outputs = if kind.isOutput then before.outputs ++ [id] else before.outputs
  proper : kind.isConstant = false
  readable : ∀ edge ∈ kind.fanins, ∃ node, before.node? edge.node = some node ∧
    node.kind.isOutput = false

namespace Grows

variable {before after : Graph} {id : Nat} {kind : Kind} (grows : before.Grows id kind after)

include grows

theorem ne_of_found {other : Nat} {node : Node} (found : before.node? other = some node) :
    other ≠ id := by
  intro same
  rw [same, grows.fresh] at found
  cases found

theorem source {other : Nat} {changed : Node} (later : after.node? other = some changed) :
    (other = id ∧ changed = .ofKind kind) ∨
      ∃ node, before.node? other = some node ∧ changed.kind = node.kind ∧
        changed.active = node.active ∧
          changed.fanouts = node.fanouts ++ after.edgesBetween other id := by
  by_cases same : other = id
  · subst same
    rw [grows.added] at later
    exact .inl ⟨rfl, (Option.some.inj later).symm⟩
  · cases found : before.node? other with
    | none =>
        rw [grows.missing other same found] at later
        cases later
    | some node =>
        rcases grows.kept other node found with ⟨node', later', facts⟩
        rw [later] at later'
        cases later'
        exact .inr ⟨node, rfl, facts⟩

theorem fanins_new : after.fanins id = kind.fanins :=
  fanins_of_node? grows.added

theorem isActive_new : after.isActive id = true :=
  isActive_of_node? grows.added

theorem isActive_fresh : before.isActive id = false :=
  isActive_eq_false_of_none grows.fresh

theorem isActive_old {other : Nat} (old : other ≠ id) :
    after.isActive other = before.isActive other := by
  cases found : before.node? other with
  | none =>
      rw [isActive_eq_false_of_none found,
        isActive_eq_false_of_none (grows.missing other old found)]
  | some node =>
      rcases grows.kept other node found with ⟨changed, later, -, active, -⟩
      rw [isActive_of_node? found, isActive_of_node? later, active]

theorem fanins_old {other : Nat} (old : other ≠ id) : after.fanins other = before.fanins other := by
  cases found : before.node? other with
  | none => rw [fanins_eq_nil_of_none found, fanins_eq_nil_of_none (grows.missing other old found)]
  | some node =>
      rcases grows.kept other node found with ⟨changed, later, sameKind, -, -⟩
      rw [fanins_of_node? found, fanins_of_node? later, sameKind]

theorem edgeCount (driver : Nat) (fanout : Literal) :
    after.edgeCount driver fanout =
      before.edgeCount driver fanout + (after.edgesBetween driver id).count fanout := by
  rw [Graph.edgeCount, Graph.edgeCount, count_edgesBetween]
  by_cases new : fanout.node = id
  · rw [new, grows.isActive_new, grows.isActive_fresh]
    simp
  · rw [grows.isActive_old new, grows.fanins_old new, if_neg (Ne.symm new), Nat.add_zero]

theorem readable_of_reads {consumer driver : Nat}
    (old : consumer ≠ id → before.Reads consumer driver →
      ∃ node, before.node? driver = some node ∧ node.kind.isOutput = false)
    (reads : after.Reads consumer driver) :
    ∃ node, before.node? driver = some node ∧ node.kind.isOutput = false := by
  by_cases new : consumer = id
  · rcases reads with ⟨edge, member, rfl⟩
    rw [new, grows.fanins_new] at member
    exact grows.readable edge member
  · rw [Reads, grows.fanins_old new] at reads
    exact old new reads

private theorem readable_of_follows (linked : before.Linked) {consumer driver : Nat}
    (active : after.isActive consumer = true) (reads : after.Reads consumer driver) :
    ∃ node, before.node? driver = some node ∧ node.kind.isOutput = false := by
  refine grows.readable_of_reads (fun old readsBefore => ?_) reads
  rw [grows.isActive_old old] at active
  exact linked.readable consumer driver active readsBefore

theorem readable_later {other : Nat}
    (readable : ∃ node, before.node? other = some node ∧ node.kind.isOutput = false) :
    ∃ node, after.node? other = some node ∧ node.kind.isOutput = false := by
  rcases readable with ⟨node, found, noOutput⟩
  rcases grows.kept other node found with ⟨changed, later, sameKind, -, -⟩
  exact ⟨changed, later, sameKind ▸ noOutput⟩

private theorem exists_kind_iff (holds : Kind → Bool) (other : Nat) :
    (∃ node, after.node? other = some node ∧ holds node.kind = true) ↔
      (∃ node, before.node? other = some node ∧ holds node.kind = true) ∨
        (other = id ∧ holds kind = true) := by
  constructor
  · intro ⟨changed, later, holdsKind⟩
    rcases grows.source later with ⟨same, rfl⟩ | ⟨node, found, sameKind, -, -⟩
    · exact .inr ⟨same, holdsKind⟩
    · exact .inl ⟨node, found, sameKind ▸ holdsKind⟩
  · intro either
    rcases either with ⟨node, found, holdsKind⟩ | ⟨rfl, holdsKind⟩
    · rcases grows.kept other node found with ⟨changed, later, sameKind, -, -⟩
      exact ⟨changed, later, sameKind ▸ holdsKind⟩
    · exact ⟨_, grows.added, holdsKind⟩

theorem mem_declared_iff {declared : List Nat} {holds : Kind → Bool}
    (members : ∀ other, other ∈ declared ↔
      ∃ node, before.node? other = some node ∧ holds node.kind = true) (other : Nat) :
    (other ∈ if holds kind = true then declared ++ [id] else declared) ↔
      ∃ node, after.node? other = some node ∧ holds node.kind = true := by
  rw [grows.exists_kind_iff]
  split
  · rename_i chosen
    rw [List.mem_append, members, List.mem_singleton]
    simp [chosen]
  · rename_i unchosen
    rw [members]
    simp [unchosen]

theorem nodup_declared {declared : List Nat} {holds : Kind → Bool}
    (members : ∀ other, other ∈ declared ↔
      ∃ node, before.node? other = some node ∧ holds node.kind = true)
    (nodup : declared.Nodup) :
    (if holds kind = true then declared ++ [id] else declared).Nodup := by
  split
  · rw [List.nodup_append]
    refine ⟨nodup, List.nodup_singleton id, ?_⟩
    intro other member new newMember same
    rw [same, List.mem_singleton.mp newMember, members] at member
    rcases member with ⟨node, found, -⟩
    exact grows.ne_of_found found rfl
  · exact nodup

private theorem active_declared {declared : List Nat} {holds : Kind → Bool}
    (active : ∀ other ∈ declared, before.isActive other = true) :
    ∀ other ∈ (if holds kind = true then declared ++ [id] else declared),
      after.isActive other = true := by
  intro other member
  by_cases new : other = id
  · rw [new]
    exact grows.isActive_new
  · rw [grows.isActive_old new]
    split at member
    · rcases List.mem_append.mp member with inside | last
      · exact active other inside
      · exact absurd (List.mem_singleton.mp last) new
    · exact active other member

private theorem edgeCount_new (linked : before.Linked) (fanout : Literal) :
    after.edgeCount id fanout = 0 := by
  rw [Graph.edgeCount]
  split
  · rename_i active
    rw [List.count_eq_zero]
    intro member
    rcases grows.readable_of_follows linked active (reads_of_mem member) with ⟨node, found, -⟩
    exact grows.ne_of_found found rfl
  · rfl

private theorem acyclic (linked : before.Linked) : after.Acyclic := by
  rcases linked.acyclic with ⟨rank, decreases⟩
  refine ⟨fun other => if other = id then (kind.fanins.map fun edge => rank edge.node).sum + 1
    else rank other, ?_⟩
  intro consumer driver consumerActive reads
  rcases grows.readable_of_follows linked consumerActive reads with ⟨node, found, -⟩
  simp only [grows.ne_of_found found, if_false]
  split
  · rename_i new
    rcases reads with ⟨edge, member, rfl⟩
    rw [new, grows.fanins_new] at member
    exact Nat.lt_succ_of_le (List.single_le_sum (by simp) _ (List.mem_map_of_mem member))
  · rename_i old
    rw [grows.isActive_old old] at consumerActive
    rw [Reads, grows.fanins_old old] at reads
    exact decreases consumer driver consumerActive reads

private theorem edgesBetween_inactive
    (active : ∀ edge ∈ kind.fanins, before.isActive edge.node = true) {other : Nat}
    (inactive : before.isActive other = false) : after.edgesBetween other id = [] := by
  rw [edgesBetween, grows.fanins_new, List.map_eq_nil_iff, List.filter_eq_nil_iff]
  intro edge member same
  have edgeActive := active edge member
  rw [of_decide_eq_true same, inactive] at edgeActive
  cases edgeActive

theorem linked (linked : before.Linked) : after.Linked where
  constant := by
    rcases linked.constant with ⟨node, found, isConstant, isActive⟩
    rcases grows.kept 0 node found with ⟨changed, later, sameKind, sameActive, -⟩
    exact ⟨changed, later, sameKind.trans isConstant, sameActive.trans isActive⟩
  only_constant other changed later isConstant := by
    rcases grows.source later with ⟨-, rfl⟩ | ⟨node, found, sameKind, -, -⟩
    · have proper := grows.proper
      rw [show kind = .constant from isConstant] at proper
      cases proper
    · exact linked.only_constant other node found (sameKind.symm.trans isConstant)
  readable consumer driver active reads :=
    grows.readable_later (grows.readable_of_follows linked active reads)
  fanouts other changed later changedActive := by
    rw [perm_edgesFrom_iff]
    intro fanout
    rw [grows.edgeCount]
    rcases grows.source later with ⟨rfl, rfl⟩ | ⟨node, found, -, sameActive, fanouts⟩
    · rw [← grows.edgeCount, grows.edgeCount_new linked]
      rfl
    · rw [fanouts, List.count_append, linked.count_fanouts found (sameActive ▸ changedActive)]
  acyclic := grows.acyclic linked
  inputs_nodup := by
    rw [grows.inputs]
    apply grows.nodup_declared _ linked.inputs_nodup
    intro other
    simpa only [Kind.isInput_iff] using linked.mem_inputs other
  mem_inputs other := by
    rw [grows.inputs]
    have members : ∀ other, other ∈ before.inputs ↔
        ∃ node, before.node? other = some node ∧ node.kind.isInput = true := by
      simpa only [Kind.isInput_iff] using linked.mem_inputs
    simpa only [Kind.isInput_iff] using grows.mem_declared_iff members other
  inputs_active := by
    rw [grows.inputs]
    exact grows.active_declared linked.inputs_active
  outputs_nodup := by
    rw [grows.outputs]
    exact grows.nodup_declared linked.mem_outputs linked.outputs_nodup
  mem_outputs other := by
    rw [grows.outputs]
    exact grows.mem_declared_iff linked.mem_outputs other
  outputs_active := by
    rw [grows.outputs]
    exact grows.active_declared linked.outputs_active

/-- The larger graph is well-formed exactly when the new node reads active nodes alone. -/
theorem wellFormed_iff (wellFormed : before.WellFormed) :
    after.WellFormed ↔ ∀ edge ∈ kind.fanins, before.isActive edge.node = true := by
  have old : ∀ edge ∈ kind.fanins, edge.node ≠ id := by
    intro edge member
    rcases grows.readable edge member with ⟨node, found, -⟩
    exact grows.ne_of_found found
  constructor
  · intro later edge member
    have reads : after.Reads id edge.node := ⟨edge, by rwa [grows.fanins_new], rfl⟩
    rw [← grows.isActive_old (old edge member)]
    exact later.isActive_driver _ _ grows.isActive_new reads
  · intro active
    refine ⟨grows.linked wellFormed.toLinked, ?_⟩
    intro consumer driver consumerActive reads
    by_cases new : consumer = id
    · rcases reads with ⟨edge, member, rfl⟩
      rw [new, grows.fanins_new] at member
      rw [grows.isActive_old (old edge member)]
      exact active edge member
    · rw [grows.isActive_old new] at consumerActive
      rw [Reads, grows.fanins_old new] at reads
      have driverActive := wellFormed.isActive_driver _ _ consumerActive reads
      have present : driver ≠ id := by
        intro same
        rw [same, grows.isActive_fresh] at driverActive
        cases driverActive
      rwa [grows.isActive_old present]

theorem consistent (consistent : before.Consistent)
    (active : ∀ edge ∈ kind.fanins, before.isActive edge.node = true) : after.Consistent where
  toWellFormed := (grows.wellFormed_iff consistent.toWellFormed).mpr active
  fanins_defined consumer driver reads :=
    grows.readable_later
      (grows.readable_of_reads (fun _ => consistent.fanins_defined consumer driver) reads)
  inactive_fanouts other changed later inactive := by
    rcases grows.source later with ⟨-, rfl⟩ | ⟨node, found, -, sameActive, fanouts⟩
    · cases inactive
    · have wasInactive := sameActive.symm.trans inactive
      have unread := grows.edgesBetween_inactive active
        ((isActive_of_node? found).trans wasInactive)
      rw [fanouts, unread, consistent.inactive_fanouts other node found wasInactive,
        List.append_nil]

end Grows

/-! ## Operations -/

variable {graph after : Graph} {id : Nat} {left right driver : Literal}

theorem reserve_eq_ok {largest : Nat} (success : graph.reserve largest = .ok after) :
    after.size = max graph.size (largest + 1) ∧ after.inputs = graph.inputs ∧
      after.outputs = graph.outputs ∧ ∀ other, after.node? other = graph.node? other := by
  rw [reserve] at success
  split at success
  · cases success
  · cases success
    refine ⟨?_, rfl, rfl, ?_⟩
    · simp only [size, Array.size_append, Array.size_replicate]
      omega
    · intro other
      simp only [node?, Array.getElem?_append, Array.getElem?_replicate]
      split
      · rfl
      · rename_i outside
        rw [Array.getElem?_eq_none (Nat.le_of_not_lt outside)]
        split <;> rfl

theorem sameWiring_reserve {largest : Nat} (success : graph.reserve largest = .ok after) :
    graph.SameWiring after := by
  rcases reserve_eq_ok success with ⟨-, inputs, outputs, nodes⟩
  exact .of_wiring inputs outputs fun other => by rw [nodes]

theorem claim_eq_ok {node : Node} (success : graph.claim id node = .ok after) :
    after.size = max graph.size (id + 1) ∧ graph.node? id = none ∧
      after.inputs = graph.inputs ∧ after.outputs = graph.outputs ∧
        ∀ other, after.node? other = if other = id then some node else graph.node? other := by
  simp only [claim, Result.guard_bind_eq_ok_iff, Result.bind_eq_ok_iff,
    Result.pure_eq_ok_iff] at success
  rcases success with ⟨-, reserved, reserving, unused, rfl⟩
  rcases reserve_eq_ok reserving with ⟨size, inputs, outputs, nodes⟩
  have inside : id < reserved.size := by omega
  have free : reserved.node? id = none := by simpa [isDefined] using unused
  refine ⟨by simpa [Graph.size] using size, (nodes id).symm.trans free, inputs, outputs, ?_⟩
  intro other
  rw [← nodes]
  by_cases new : other = id
  · subst new
    simp only [node?, if_true]
    rw [Array.getElem?_setIfInBounds_self_of_lt inside]
    rfl
  · simp only [node?, new, if_false]
    rw [Array.getElem?_setIfInBounds_ne (Ne.symm new)]

theorem checkFanin_eq_ok_iff {fanin : Literal} :
    graph.checkFanin fanin = .ok () ↔
      ∃ node, graph.node? fanin.node = some node ∧ node.kind.isOutput = false := by
  simp only [checkFanin, Result.bind_eq_ok_iff, Result.guard_eq_ok_iff, Result.pure_eq_ok_iff,
    node_eq_ok_iff, Bool.not_eq_true, and_true]

def gained (fanins : List Literal) (consumer driver : Nat) : List Literal :=
  (fanins.filter (·.node = driver)).map fun edge => ⟨consumer, edge.inverted⟩

theorem node?_connects (fanins : List Literal) (consumer : Nat) (graph : Graph) (other : Nat) :
    (fanins.foldl (fun graph fanin => graph.connect fanin consumer) graph).node? other =
      (graph.node? other).map fun node =>
        { node with fanouts := node.fanouts ++ gained fanins consumer other } := by
  induction fanins generalizing graph with
  | nil => cases found : graph.node? other <;> simp [gained, found]
  | cons head tail induction =>
      rw [List.foldl_cons, induction, connect, node?_modify]
      by_cases same : head.node = other
      · cases graph.node? other <;> simp [gained, same, Node.addFanout]
      · cases graph.node? other <;> simp [gained, same]

theorem size_connects (fanins : List Literal) (consumer : Nat) (graph : Graph) :
    (fanins.foldl (fun graph fanin => graph.connect fanin consumer) graph).size = graph.size := by
  induction fanins generalizing graph with
  | nil => rfl
  | cons head tail induction =>
      rw [List.foldl_cons, induction, connect, size_modify]

theorem declared_connects (fanins : List Literal) (consumer : Nat) (graph : Graph) :
    (fanins.foldl (fun graph fanin => graph.connect fanin consumer) graph).inputs = graph.inputs ∧
      (fanins.foldl (fun graph fanin => graph.connect fanin consumer) graph).outputs =
        graph.outputs := by
  induction fanins generalizing graph with
  | nil => exact ⟨rfl, rfl⟩
  | cons head tail induction => exact induction (graph.connect head consumer)

/-- A node in a free slot, whose edges are listed afterwards, is one more node. -/
theorem grows_of_connects (kind : Kind) {claimed : Graph}
    (size : claimed.size = max graph.size (id + 1)) (fresh : graph.node? id = none)
    (nodes : ∀ other, claimed.node? other =
      if other = id then some (.ofKind kind) else graph.node? other)
    (inputs : claimed.inputs = if kind.isInput then graph.inputs ++ [id] else graph.inputs)
    (outputs : claimed.outputs = if kind.isOutput then graph.outputs ++ [id] else graph.outputs)
    (proper : kind.isConstant = false)
    (readable : ∀ edge ∈ kind.fanins, ∃ node, graph.node? edge.node = some node ∧
      node.kind.isOutput = false) :
    graph.Grows id kind
      (kind.fanins.foldl (fun graph fanin => graph.connect fanin id) claimed) := by
  have unread : gained kind.fanins id id = [] := by
    rw [gained, List.map_eq_nil_iff, List.filter_eq_nil_iff]
    intro edge member same
    rcases readable edge member with ⟨node, found, -⟩
    rw [of_decide_eq_true same, fresh] at found
    cases found
  have added : (kind.fanins.foldl (fun graph fanin => graph.connect fanin id) claimed).node? id =
      some (.ofKind kind) := by
    rw [node?_connects, nodes, if_pos rfl, unread]
    rfl
  exact {
    size := (size_connects _ _ _).trans size
    fresh := fresh
    added := added
    missing := by
      intro other new missing
      rw [node?_connects, nodes, if_neg new, missing, Option.map_none]
    -- an old node gains just the edges that the new one reads it by
    kept := by
      intro other node found
      have old : other ≠ id := by
        intro same
        rw [same, fresh] at found
        cases found
      have changed := node?_connects kind.fanins id claimed other
      rw [nodes, if_neg old, found, Option.map_some] at changed
      refine ⟨_, changed, rfl, rfl, ?_⟩
      rw [edgesBetween, fanins_of_node? added]
      rfl
    still := by
      intro other node changed found later
      have old : other ≠ id := by
        intro same
        rw [same, fresh] at found
        cases found
      rw [node?_connects, nodes, if_neg old, found, Option.map_some, Option.some.injEq] at later
      rw [← later]
    inputs := (declared_connects _ _ _).1.trans inputs
    outputs := (declared_connects _ _ _).2.trans outputs
    proper := proper
    readable := readable }

theorem node?_push (graph : Graph) (node : Node) (inputs outputs : List Nat) (other : Nat) :
    (⟨graph.slots.push (some node), inputs, outputs⟩ : Graph).node? other =
      if other = graph.size then some node else graph.node? other := by
  simp only [node?, Array.getElem?_push, size]
  by_cases last : other = graph.slots.size <;> simp [last]

theorem node?_size (graph : Graph) : graph.node? graph.size = none := by
  simp [node?, size]

theorem grows_addInput (graph : Graph) : graph.Grows graph.size .input graph.addInput.2 :=
  grows_of_connects .input (by simp [addInput, size]) graph.node?_size (graph.node?_push _ _ _)
    rfl rfl rfl fun _ member => nomatch member

theorem grows_addInputAt (success : graph.addInputAt id = .ok after) :
    graph.Grows id .input after := by
  simp only [addInputAt, Result.bind_eq_ok_iff, Result.pure_eq_ok_iff] at success
  rcases success with ⟨claimed, claiming, rfl⟩
  rcases claim_eq_ok claiming with ⟨size, fresh, inputs, outputs, nodes⟩
  refine grows_of_connects .input size fresh nodes (congrArg (· ++ [id]) inputs) outputs rfl ?_
  intro edge member
  cases member

theorem grows_addGateAt (success : graph.addGateAt id left right = .ok after) :
    graph.Grows id (.gate left right) after := by
  simp only [addGateAt, Result.bind_eq_ok_iff, Result.pure_eq_ok_iff] at success
  rcases success with ⟨⟨⟩, leftChecked, ⟨⟩, rightChecked, claimed, claiming, rfl⟩
  rcases claim_eq_ok claiming with ⟨size, fresh, inputs, outputs, nodes⟩
  apply grows_of_connects (.gate left right) size fresh nodes inputs outputs rfl
  intro edge member
  rcases List.mem_pair.mp member with rfl | rfl
  · exact checkFanin_eq_ok_iff.mp leftChecked
  · exact checkFanin_eq_ok_iff.mp rightChecked

theorem grows_addGate (success : graph.addGate left right = .ok (id, after)) :
    graph.Grows id (.gate left right) after := by
  simp only [addGate, Result.bind_eq_ok_iff, Result.pure_eq_ok_iff, Prod.mk.injEq] at success
  rcases success with ⟨grown, growing, rfl, rfl⟩
  exact grows_addGateAt growing

theorem grows_addOutput (success : graph.addOutput driver = .ok (id, after)) :
    graph.Grows id (.output driver) after := by
  simp only [addOutput, Result.bind_eq_ok_iff, Result.pure_eq_ok_iff, Prod.mk.injEq] at success
  rcases success with ⟨⟨⟩, checked, rfl, rfl⟩
  apply grows_of_connects (.output driver) (by simp [size]) graph.node?_size
    (graph.node?_push _ _ _) rfl rfl rfl
  intro edge member
  rw [List.mem_singleton.mp member]
  exact checkFanin_eq_ok_iff.mp checked

theorem sameWiring_setLabel {label : String} (success : graph.setLabel id label = .ok after) :
    graph.SameWiring after := by
  simp only [setLabel, update, Result.bind_eq_ok_iff, Result.pure_eq_ok_iff] at success
  rcases success with ⟨-, -, rfl⟩
  exact .modify fun _ => rfl

/-! ## A small graph -/

/-- Two gates read the same two inputs, in either order; a third one is high where only
the first of them is, which is never. -/
def twins : Graph where
  slots := #[
    some { kind := .constant },
    some { kind := .input, fanouts := [.plain 3, .plain 4] },
    some { kind := .input, fanouts := [.plain 3, .plain 4] },
    some { kind := .gate (.plain 1) (.plain 2), fanouts := [.plain 5, .plain 7] },
    some { kind := .gate (.plain 2) (.plain 1), fanouts := [⟨5, true⟩] },
    some { kind := .gate (.plain 3) ⟨4, true⟩, fanouts := [⟨6, true⟩] },
    some { kind := .output ⟨5, true⟩ },
    some { kind := .output (.plain 3) }]
  inputs := [1, 2]
  outputs := [6, 7]

theorem consistent_twins : twins.Consistent := by
  have input := empty.grows_addInput.consistent consistent_empty (by decide)
  have inputs := empty.addInput.2.grows_addInput.consistent input (by decide)
  have first := grows_addGateAt (show addGateAt 3 (.plain 1) (.plain 2) _ = .ok _ from rfl)
    |>.consistent inputs (by decide)
  have second := grows_addGateAt (show addGateAt 4 (.plain 2) (.plain 1) _ = .ok _ from rfl)
    |>.consistent first (by decide)
  have third := grows_addGateAt (show addGateAt 5 (.plain 3) ⟨4, true⟩ _ = .ok _ from rfl)
    |>.consistent second (by decide)
  have high := grows_addOutput (show addOutput ⟨5, true⟩ _ = .ok _ from rfl)
    |>.consistent third (by decide)
  exact grows_addOutput (show addOutput (.plain 3) _ = .ok _ from rfl)
    |>.consistent high (by decide)

end AndInverter.Graph
