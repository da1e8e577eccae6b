import AndInverter.Proofs.Graph.Edges

namespace AndInverter

/-! What no pass touches. Ids, kinds, labels and declarations stay; a node may only
become inactive, and only a gate does; an inactive node is never rewired. A graph
that another one frames is linked as soon as its edges are. -/

structure NodeFrame (before after : Node) : Prop where
  kind : ∃ transform, after.kind = before.kind.mapFanins transform
  label : after.label = before.label
  active : after.active = true → before.active = true
  kept : before.kind.isGate = false → after.active = before.active
  frozen : before.active = false → after.kind = before.kind

namespace NodeFrame

theorem of_kind {before after : Node} (kind : after.kind = before.kind)
    (label : after.label = before.label) (active : after.active = true → before.active = true)
    (kept : before.kind.isGate = false → after.active = before.active) :
    NodeFrame before after where
  kind := ⟨id, kind.trans (Kind.mapFanins_id _).symm⟩
  label := label
  active := active
  kept := kept
  frozen _ := kind

theorem refl (node : Node) : NodeFrame node node :=
  .of_kind rfl rfl id fun _ => rfl

theorem trans {before middle after : Node} (first : NodeFrame before middle)
    (second : NodeFrame middle after) : NodeFrame before after where
  kind := by
    rcases first.kind with ⟨early, firstKind⟩
    rcases second.kind with ⟨late, secondKind⟩
    exact ⟨late ∘ early, by rw [secondKind, firstKind, Kind.mapFanins_mapFanins]⟩
  label := second.label.trans first.label
  active holds := first.active (second.active holds)
  kept noGate := by
    rcases first.kind with ⟨early, firstKind⟩
    have middleNoGate : middle.kind.isGate = false := by
      rw [firstKind, Kind.isGate_mapFanins, noGate]
    rw [second.kept middleNoGate, first.kept noGate]
  frozen inactive := by
    have middleInactive : middle.active = false := by
      rw [Bool.eq_false_iff]
      intro middleActive
      rw [first.active middleActive] at inactive
      cases inactive
    rw [second.frozen middleInactive, first.frozen inactive]

end NodeFrame

namespace Graph

/-- What becomes of a graph. -/
structure Frame (before after : Graph) : Prop where
  size : after.size = before.size
  inputs : after.inputs = before.inputs
  outputs : after.outputs = before.outputs
  missing : ∀ id, before.node? id = none → after.node? id = none
  node : ∀ id node, before.node? id = some node →
    ∃ changed, after.node? id = some changed ∧ NodeFrame node changed

namespace Frame

theorem refl (graph : Graph) : graph.Frame graph where
  size := rfl
  inputs := rfl
  outputs := rfl
  missing _ none := none
  node _ node found := ⟨node, found, .refl node⟩

theorem trans {before middle after : Graph} (first : before.Frame middle)
    (second : middle.Frame after) : before.Frame after where
  size := second.size.trans first.size
  inputs := second.inputs.trans first.inputs
  outputs := second.outputs.trans first.outputs
  missing id none := second.missing id (first.missing id none)
  node id node found := by
    rcases first.node id node found with ⟨between, middleFound, firstFrame⟩
    rcases second.node id between middleFound with ⟨changed, afterFound, secondFrame⟩
    exact ⟨changed, afterFound, firstFrame.trans secondFrame⟩

theorem mapNodes {graph : Graph} {change : Nat → Node → Node}
    (frames : ∀ id node, graph.node? id = some node → NodeFrame node (change id node)) :
    graph.Frame (graph.mapNodes change) where
  size := size_mapNodes change graph
  inputs := rfl
  outputs := rfl
  missing id none := by rw [node?_mapNodes, none, Option.map_none]
  node id node found :=
    ⟨change id node, by rw [node?_mapNodes, found, Option.map_some], frames id node found⟩

variable {before after : Graph} (frame : before.Frame after)

include frame

theorem ids : after.ids = before.ids := by
  rw [Graph.ids, Graph.ids, frame.size]
  apply List.filter_congr
  intro id _
  rw [Graph.isDefined, Graph.isDefined]
  cases found : before.node? id with
  | none => rw [frame.missing id found]
  | some node =>
      rcases frame.node id node found with ⟨changed, later, -⟩
      rw [later]
      rfl

theorem source {id : Nat} {changed : Node} (found : after.node? id = some changed) :
    ∃ node, before.node? id = some node ∧ NodeFrame node changed := by
  cases earlier : before.node? id with
  | none =>
      rw [frame.missing id earlier] at found
      cases found
  | some node =>
      rcases frame.node id node earlier with ⟨other, otherFound, nodeFrame⟩
      rw [found] at otherFound
      cases otherFound
      exact ⟨node, rfl, nodeFrame⟩

theorem isActive {id : Nat} (active : after.isActive id = true) :
    before.isActive id = true := by
  rcases isActive_eq_true_iff.mp active with ⟨changed, found, changedActive⟩
  rcases frame.source found with ⟨node, earlier, nodeFrame⟩
  exact isActive_eq_true_iff.mpr ⟨node, earlier, nodeFrame.active changedActive⟩

theorem isGate (id : Nat) : after.isGate id = before.isGate id := by
  cases found : before.node? id with
  | none => simp [Graph.isGate, found, frame.missing id found]
  | some node =>
      rcases frame.node id node found with ⟨changed, later, nodeFrame⟩
      rcases nodeFrame.kind with ⟨transform, kind⟩
      rw [isGate_of_node? later, isGate_of_node? found, kind, Kind.isGate_mapFanins]

theorem isActive_of_not_isGate {id : Nat} (noGate : before.isGate id = false)
    (active : before.isActive id = true) : after.isActive id = true := by
  rcases isActive_eq_true_iff.mp active with ⟨node, found, nodeActive⟩
  rcases frame.node id node found with ⟨changed, later, nodeFrame⟩
  rw [isGate_of_node? found] at noGate
  exact isActive_eq_true_iff.mpr ⟨changed, later, (nodeFrame.kept noGate).trans nodeActive⟩

theorem exists_isInput_iff (id : Nat) :
    (∃ node, after.node? id = some node ∧ node.kind = .input) ↔
      ∃ node, before.node? id = some node ∧ node.kind = .input := by
  constructor
  · rintro ⟨changed, found, kind⟩
    rcases frame.source found with ⟨node, earlier, nodeFrame⟩
    rcases nodeFrame.kind with ⟨transform, mapped⟩
    refine ⟨node, earlier, Kind.isInput_iff.mp ?_⟩
    rw [← Kind.isInput_mapFanins transform, ← mapped, kind]
    rfl
  · rintro ⟨node, found, kind⟩
    rcases frame.node id node found with ⟨changed, later, nodeFrame⟩
    rcases nodeFrame.kind with ⟨transform, mapped⟩
    exact ⟨changed, later, by rw [mapped, kind]; rfl⟩

theorem exists_isOutput_iff (id : Nat) :
    (∃ node, after.node? id = some node ∧ node.kind.isOutput = true) ↔
      ∃ node, before.node? id = some node ∧ node.kind.isOutput = true := by
  constructor
  · rintro ⟨changed, found, isOutput⟩
    rcases frame.source found with ⟨node, earlier, nodeFrame⟩
    rcases nodeFrame.kind with ⟨transform, mapped⟩
    rw [mapped, Kind.isOutput_mapFanins] at isOutput
    exact ⟨node, earlier, isOutput⟩
  · rintro ⟨node, found, isOutput⟩
    rcases frame.node id node found with ⟨changed, later, nodeFrame⟩
    rcases nodeFrame.kind with ⟨transform, mapped⟩
    exact ⟨changed, later, by rw [mapped, Kind.isOutput_mapFanins, isOutput]⟩

/-- Only the edges are left to check in a graph that a linked one frames. -/
theorem linked (linked : before.Linked)
    (readable : ∀ consumer driver, after.isActive consumer = true →
      after.Reads consumer driver →
      ∃ node, after.node? driver = some node ∧ node.kind.isOutput = false)
    (fanouts : ∀ id node, after.node? id = some node → node.active = true →
      ∀ fanout, node.fanouts.count fanout = after.edgeCount id fanout)
    (acyclic : after.Acyclic) : after.Linked where
  constant := by
    rcases linked.constant with ⟨node, found, kind, active⟩
    rcases frame.node 0 node found with ⟨changed, later, nodeFrame⟩
    rcases nodeFrame.kind with ⟨transform, mapped⟩
    have noGate : node.kind.isGate = false := by rw [kind]; rfl
    refine ⟨changed, later, ?_, (nodeFrame.kept noGate).trans active⟩
    rw [mapped, kind]
    rfl
  only_constant id changed found kind := by
    rcases frame.source found with ⟨node, earlier, nodeFrame⟩
    rcases nodeFrame.kind with ⟨transform, mapped⟩
    apply linked.only_constant id node earlier
    apply Kind.isConstant_iff.mp
    rw [← Kind.isConstant_mapFanins transform, ← mapped, kind]
    rfl
  readable := readable
  fanouts id node found active := perm_edgesFrom_iff.mpr (fanouts id node found active)
  acyclic := acyclic
  inputs_nodup := frame.inputs ▸ linked.inputs_nodup
  mem_inputs id := by
    rw [frame.inputs, linked.mem_inputs, frame.exists_isInput_iff]
  inputs_active id member := by
    rw [frame.inputs] at member
    rcases (linked.mem_inputs id).mp member with ⟨node, found, kind⟩
    apply frame.isActive_of_not_isGate _ (linked.inputs_active id member)
    rw [isGate_of_node? found, kind]
    rfl
  outputs_nodup := frame.outputs ▸ linked.outputs_nodup
  mem_outputs id := by
    rw [frame.outputs, linked.mem_outputs, frame.exists_isOutput_iff]
  outputs_active id member := by
    rw [frame.outputs] at member
    rcases (linked.mem_outputs id).mp member with ⟨node, found, isOutput⟩
    apply frame.isActive_of_not_isGate _ (linked.outputs_active id member)
    rw [isGate_of_node? found]
    cases kind : node.kind with
    | output driver => rfl
    | constant => rfl
    | input => rfl
    | gate left right =>
        rw [kind] at isOutput
        cases isOutput

theorem readable {id : Nat}
    (readable : ∃ node, before.node? id = some node ∧ node.kind.isOutput = false) :
    ∃ node, after.node? id = some node ∧ node.kind.isOutput = false := by
  rcases readable with ⟨node, found, noOutput⟩
  rcases frame.node id node found with ⟨changed, later, nodeFrame⟩
  rcases nodeFrame.kind with ⟨transform, kind⟩
  exact ⟨changed, later, by rw [kind, Kind.isOutput_mapFanins, noOutput]⟩

end Frame

end Graph

end AndInverter
