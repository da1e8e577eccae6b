import AndInverter.Proofs.Graph.Functions
import AndInverter.Simulation.Session

namespace AndInverter

/-! Annotations. Labels, signatures and memberships stand beside the wiring of a graph:
whoever changes only these changes neither its shape nor any function. The same holds of
whoever changes what inactive nodes list. -/

def Node.wiring (node : Node) : Kind × List Literal × Bool :=
  (node.kind, node.fanouts, node.active)

def Node.liveWiring (node : Node) : Kind × List Literal × Bool :=
  (node.kind, if node.active then node.fanouts else [], node.active)

namespace Graph

/-- Two graphs that differ at most in annotations and in what inactive nodes list. -/
structure SameLive (before after : Graph) : Prop where
  inputs : after.inputs = before.inputs
  outputs : after.outputs = before.outputs
  alive : ∀ id, (after.node? id).map Node.liveWiring = (before.node? id).map Node.liveWiring

structure SameWiring (before after : Graph) : Prop extends SameLive before after where
  fanouts : ∀ id, (after.node? id).map Node.fanouts = (before.node? id).map Node.fanouts

/-- Only signatures and memberships differ. -/
structure Annotates (before after : Graph) : Prop extends SameWiring before after where
  size : after.size = before.size
  labels : ∀ id, (after.node? id).map Node.label = (before.node? id).map Node.label

/-! ## The same live wiring -/

namespace SameLive

theorem symm {before after : Graph} (same : before.SameLive after) : after.SameLive before where
  inputs := same.inputs.symm
  outputs := same.outputs.symm
  alive id := (same.alive id).symm

theorem mapNodes {graph : Graph} {change other : Nat → Node → Node}
    (agree : ∀ id node, graph.node? id = some node →
      (other id node).liveWiring = (change id node).liveWiring) :
    (graph.mapNodes change).SameLive (graph.mapNodes other) where
  inputs := rfl
  outputs := rfl
  alive id := by
    rw [node?_mapNodes, node?_mapNodes]
    cases found : graph.node? id with
    | none => rfl
    | some node => exact congrArg some (agree id node found)

variable {before after : Graph} (same : before.SameLive after)

include same

theorem node {id : Nat} {node : Node} (found : before.node? id = some node) :
    ∃ changed, after.node? id = some changed ∧ changed.kind = node.kind ∧
      (node.active = true → changed.fanouts = node.fanouts) ∧ changed.active = node.active := by
  have equal := same.alive id
  rw [found, Option.map_some] at equal
  rcases Option.map_eq_some_iff.mp equal with ⟨changed, later, wiring⟩
  simp only [Node.liveWiring, Prod.mk.injEq] at wiring
  refine ⟨changed, later, wiring.1, ?_, wiring.2.2⟩
  intro active
  have fanouts := wiring.2.1
  rwa [wiring.2.2, if_pos active, if_pos active] at fanouts

theorem node?_eq_none {id : Nat} (missing : before.node? id = none) : after.node? id = none := by
  have equal := same.alive id
  rwa [missing, Option.map_none, Option.map_eq_none_iff] at equal

theorem isActive (id : Nat) : after.isActive id = before.isActive id := by
  cases found : before.node? id with
  | none =>
      rw [isActive_eq_false_of_none found, isActive_eq_false_of_none (same.node?_eq_none found)]
  | some node =>
      rcases same.node found with ⟨changed, later, -, -, active⟩
      rw [isActive_of_node? found, isActive_of_node? later, active]

theorem isGate (id : Nat) : after.isGate id = before.isGate id := by
  cases found : before.node? id with
  | none => simp only [Graph.isGate, found, same.node?_eq_none found]
  | some node =>
      rcases same.node found with ⟨changed, later, kind, -, -⟩
      rw [isGate_of_node? found, isGate_of_node? later, kind]

theorem fanins (id : Nat) : after.fanins id = before.fanins id := by
  cases found : before.node? id with
  | none => rw [fanins_eq_nil_of_none found, fanins_eq_nil_of_none (same.node?_eq_none found)]
  | some node =>
      rcases same.node found with ⟨changed, later, kind, -, -⟩
      rw [fanins_of_node? found, fanins_of_node? later, kind]

theorem reads_iff {consumer driver : Nat} :
    after.Reads consumer driver ↔ before.Reads consumer driver := by
  rw [Reads, Reads, same.fanins]

theorem observed_iff {id : Nat} : after.Observed id ↔ before.Observed id := by
  have follows : after.Follows = before.Follows := by
    funext consumer driver
    rw [Follows, Follows, same.isActive, same.reads_iff]
  rw [Observed, Observed, Sees, Sees, follows, same.outputs]

theorem edgeCount (driver : Nat) (fanout : Literal) :
    after.edgeCount driver fanout = before.edgeCount driver fanout := by
  rw [Graph.edgeCount, Graph.edgeCount, same.isActive, same.fanins]

theorem exists_kind_iff (holds : Kind → Prop) (id : Nat) :
    (∃ node, after.node? id = some node ∧ holds node.kind) ↔
      ∃ node, before.node? id = some node ∧ holds node.kind := by
  constructor
  · rintro ⟨node, found, kind⟩
    rcases same.symm.node found with ⟨other, earlier, equal, -, -⟩
    exact ⟨other, earlier, equal ▸ kind⟩
  · rintro ⟨node, found, kind⟩
    rcases same.node found with ⟨other, later, equal, -, -⟩
    exact ⟨other, later, equal ▸ kind⟩

theorem acyclic (acyclic : before.Acyclic) : after.Acyclic := by
  rcases acyclic with ⟨rank, decreases⟩
  refine ⟨rank, ?_⟩
  intro consumer driver active reads
  rw [same.isActive] at active
  exact decreases consumer driver active (same.reads_iff.mp reads)

theorem perm_fanouts (listed : ∀ id node, before.node? id = some node → node.active = true →
      node.fanouts.Perm (before.edgesFrom id)) (id : Nat) (node : Node)
    (found : after.node? id = some node) (active : node.active = true) :
    node.fanouts.Perm (after.edgesFrom id) := by
  rcases same.symm.node found with ⟨earlier, earlierFound, -, fanouts, wasActive⟩
  rw [perm_edgesFrom_iff, ← fanouts active]
  intro fanout
  rw [same.edgeCount]
  exact perm_edgesFrom_iff.mp (listed id earlier earlierFound (wasActive.trans active)) fanout

theorem linked (linked : before.Linked) : after.Linked where
  constant := by
    rcases linked.constant with ⟨node, found, kind, active⟩
    rcases same.node found with ⟨changed, later, equal, -, stillActive⟩
    exact ⟨changed, later, equal.trans kind, stillActive.trans active⟩
  only_constant id node found kind := by
    rcases same.symm.node found with ⟨earlier, earlierFound, equal, -, -⟩
    exact linked.only_constant id earlier earlierFound (equal.trans kind)
  readable consumer driver active reads := by
    rw [same.isActive] at active
    exact (same.exists_kind_iff (·.isOutput = false) driver).mpr
      (linked.readable consumer driver active (same.reads_iff.mp reads))
  fanouts := same.perm_fanouts linked.fanouts
  acyclic := same.acyclic linked.acyclic
  inputs_nodup := same.inputs ▸ linked.inputs_nodup
  mem_inputs id := by
    rw [same.inputs, linked.mem_inputs, same.exists_kind_iff (· = .input)]
  inputs_active id member := by
    rw [same.isActive]
    exact linked.inputs_active id (same.inputs ▸ member)
  outputs_nodup := same.outputs ▸ linked.outputs_nodup
  mem_outputs id := by
    rw [same.outputs, linked.mem_outputs, same.exists_kind_iff (·.isOutput = true)]
  outputs_active id member := by
    rw [same.isActive]
    exact linked.outputs_active id (same.outputs ▸ member)

theorem wellFormed (wellFormed : before.WellFormed) : after.WellFormed where
  toLinked := same.linked wellFormed.toLinked
  isActive_driver consumer driver active reads := by
    rw [same.isActive] at active ⊢
    exact wellFormed.isActive_driver _ _ active (same.reads_iff.mp reads)

theorem takes {assignment : Assignment} {id : Nat} {value : Bool}
    (takes : before.Takes assignment id value) : after.Takes assignment id value := by
  induction takes with
  | constant found kind =>
      rcases same.node found with ⟨changed, later, equal, -, -⟩
      exact .constant later (equal.trans kind)
  | input found kind =>
      rcases same.node found with ⟨changed, later, equal, -, -⟩
      exact .input later (equal.trans kind)
  | gate found kind _ _ left right =>
      rcases same.node found with ⟨changed, later, equal, -, -⟩
      exact .gate later (equal.trans kind) left right
  | output found kind _ driver =>
      rcases same.node found with ⟨changed, later, equal, -, -⟩
      exact .output later (equal.trans kind) driver

theorem sameFunction (id : Nat) : before.SameFunction id after id :=
  fun _ _ => ⟨same.takes, same.symm.takes⟩

end SameLive

/-! ## The same wiring -/

namespace SameWiring

theorem of_wiring {before after : Graph} (inputs : after.inputs = before.inputs)
    (outputs : after.outputs = before.outputs)
    (nodes : ∀ id, (after.node? id).map Node.wiring = (before.node? id).map Node.wiring) :
    before.SameWiring after where
  inputs := inputs
  outputs := outputs
  alive id := by
    have equal := congrArg
      (Option.map fun wiring => (wiring.1, if wiring.2.2 then wiring.2.1 else [], wiring.2.2))
      (nodes id)
    rw [Option.map_map, Option.map_map] at equal
    exact equal
  fanouts id := by
    have equal := congrArg (Option.map fun wiring => wiring.2.1) (nodes id)
    rw [Option.map_map, Option.map_map] at equal
    exact equal

theorem symm {before after : Graph} (same : before.SameWiring after) :
    after.SameWiring before where
  toSameLive := same.toSameLive.symm
  fanouts id := (same.fanouts id).symm

theorem node {before after : Graph} (same : before.SameWiring after) {id : Nat} {node : Node}
    (found : before.node? id = some node) :
    ∃ changed, after.node? id = some changed ∧ changed.kind = node.kind ∧
      changed.fanouts = node.fanouts ∧ changed.active = node.active := by
  rcases same.toSameLive.node found with ⟨changed, later, kind, -, active⟩
  have fanouts := same.fanouts id
  rw [found, later, Option.map_some, Option.map_some, Option.some.injEq] at fanouts
  exact ⟨changed, later, kind, fanouts, active⟩

end SameWiring

theorem map_node?_modify {α : Type} {field : Node → α} {change : Node → Node}
    (kept : ∀ node, field (change node) = field node) (id : Nat) (graph : Graph) (other : Nat) :
    ((graph.modify id change).node? other).map field = (graph.node? other).map field := by
  rw [node?_modify]
  split
  · rw [Option.map_map]
    congr 1
    funext node
    exact kept node
  · rfl

theorem SameWiring.modify {graph : Graph} {id : Nat} {change : Node → Node}
    (wiring : ∀ node, (change node).wiring = node.wiring) :
    graph.SameWiring (graph.modify id change) :=
  .of_wiring rfl rfl (map_node?_modify wiring id graph)

/-! ## Signatures and memberships -/

namespace Annotates

theorem refl (graph : Graph) : graph.Annotates graph where
  size := rfl
  inputs := rfl
  outputs := rfl
  alive _ := rfl
  fanouts _ := rfl
  labels _ := rfl

theorem trans {before middle after : Graph} (first : before.Annotates middle)
    (second : middle.Annotates after) : before.Annotates after where
  size := second.size.trans first.size
  inputs := second.inputs.trans first.inputs
  outputs := second.outputs.trans first.outputs
  alive id := (second.alive id).trans (first.alive id)
  fanouts id := (second.fanouts id).trans (first.fanouts id)
  labels id := (second.labels id).trans (first.labels id)

theorem modify {graph : Graph} {id : Nat} {change : Node → Node}
    (wiring : ∀ node, (change node).wiring = node.wiring)
    (label : ∀ node, (change node).label = node.label) :
    graph.Annotates (graph.modify id change) where
  toSameWiring := .modify wiring
  size := size_modify id change graph
  labels := map_node?_modify label id graph

variable {before after : Graph} (annotates : before.Annotates after)

include annotates

theorem frame : before.Frame after where
  size := annotates.size
  inputs := annotates.inputs
  outputs := annotates.outputs
  missing id missing := annotates.node?_eq_none missing
  node id node found := by
    rcases annotates.node found with ⟨changed, later, kind, -, active⟩
    have labels := annotates.labels id
    rw [found, later, Option.map_some, Option.map_some, Option.some.injEq] at labels
    exact ⟨changed, later, .of_kind kind labels (fun holds => active.symm.trans holds)
      fun _ => active⟩

theorem preserves : before.Preserves after where
  frame := annotates.frame
  functions id _ := annotates.sameFunction id

end Annotates

theorem annotates_recordSignatures (ids : List Nat) (words : Words) (graph : Graph) :
    graph.Annotates (graph.recordSignatures ids words) := by
  induction ids generalizing graph with
  | nil => exact .refl graph
  | cons head tail induction =>
      have first : graph.Annotates
          (graph.modify head fun node => { node with signature := words.ofNode head }) :=
        .modify (fun _ => rfl) (fun _ => rfl)
      exact first.trans (induction _)

def signature? (graph : Graph) (id : Nat) : Option Word :=
  (graph.node? id).map Node.signature

theorem signature?_recordSignatures (ids : List Nat) (words : Words) (graph : Graph) (id : Nat) :
    (graph.recordSignatures ids words).signature? id =
      if id ∈ ids then (graph.node? id).map fun _ => words.ofNode id
      else graph.signature? id := by
  induction ids generalizing graph with
  | nil => rfl
  | cons head tail induction =>
      rw [recordSignatures, List.foldl_cons, ← recordSignatures, induction]
      simp only [signature?, node?_modify, List.mem_cons]
      by_cases first : head = id
      · subst first
        cases graph.node? head <;> simp
      · simp [first, Ne.symm first]

end Graph

namespace Partition

open AndInverter.Graph (Annotates)

theorem annotates_forget (graph : Graph) : graph.Annotates (forget graph) where
  size := Graph.size_mapNodes _ graph
  toSameWiring := .of_wiring rfl rfl fun id => by
    rw [forget, Graph.node?_mapNodes, Option.map_map]
    rfl
  labels id := by
    rw [forget, Graph.node?_mapNodes, Option.map_map]
    rfl

theorem annotates_record (members : List (Nat × Membership)) (graph : Graph) :
    graph.Annotates (record members graph).1 := by
  induction members generalizing graph with
  | nil => exact .refl graph
  | cons head tail induction =>
      simp only [record, Graph.update]
      cases found : graph.node head.1 with
      | error failure => exact .refl graph
      | ok node =>
          have first : graph.Annotates
              (graph.modify head.1 fun node => { node with membership := some head.2 }) :=
            .modify (fun _ => rfl) (fun _ => rfl)
          exact first.trans (induction _)

theorem record_eq_ok {members : List (Nat × Membership)} {graph : Graph}
    (defined : ∀ member ∈ members, graph.isDefined member.1 = true) :
    (record members graph).2 = .ok () := by
  induction members generalizing graph with
  | nil => rfl
  | cons head tail induction =>
      rcases Option.isSome_iff_exists.mp (defined head (List.mem_cons_self ..)) with
        ⟨node, found⟩
      simp only [record, Graph.update, Graph.node_eq_ok_iff.mpr found]
      apply induction
      intro member inside
      have before := defined member (List.mem_cons_of_mem _ inside)
      rw [Graph.isDefined, Graph.node?_modify]
      rw [Graph.isDefined] at before
      split
      · rwa [Option.isSome_map]
      · exact before

theorem signature?_record (members : List (Nat × Membership)) (graph : Graph) (id : Nat) :
    (record members graph).1.signature? id = graph.signature? id := by
  induction members generalizing graph with
  | nil => rfl
  | cons head tail induction =>
      simp only [record, Graph.update]
      cases found : graph.node head.1 with
      | error failure => rfl
      | ok node =>
          refine (induction _).trans ?_
          apply Graph.map_node?_modify
          exact fun _ => rfl

theorem signature?_recordIn (partition : Partition) (graph : Graph) (id : Nat) :
    (partition.recordIn graph).1.signature? id = graph.signature? id := by
  rw [recordIn, signature?_record, forget, Graph.signature?, Graph.signature?,
    Graph.node?_mapNodes, Option.map_map]
  rfl

theorem annotates_recordIn (partition : Partition) (graph : Graph) :
    graph.Annotates (partition.recordIn graph).1 :=
  (annotates_forget graph).trans (annotates_record _ _)

end Partition

end AndInverter
