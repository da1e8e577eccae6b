import AndInverter.Graph.Construction
import AndInverter.Meaning.Value

namespace AndInverter.Graph

/-! Well-formed graphs: the constant is where it belongs, active nodes read active
nodes, every node lists exactly the edges that leave it, what is declared is there,
and no active node depends on itself. In such a graph every active node takes a
value. -/

def Reads (graph : Graph) (consumer driver : Nat) : Prop :=
  ∃ edge ∈ graph.fanins consumer, edge.node = driver

def edgesBetween (graph : Graph) (driver consumer : Nat) : List Literal :=
  ((graph.fanins consumer).filter (·.node = driver)).map fun edge => ⟨consumer, edge.inverted⟩

/-- The edges from a node to its active consumers, each as the node lists it. -/
def edgesFrom (graph : Graph) (driver : Nat) : List Literal :=
  (graph.ids.filter graph.isActive).flatMap (graph.edgesBetween driver)

/-- No active node depends on itself: along every edge to an active consumer some
rank grows. -/
def Acyclic (graph : Graph) : Prop :=
  ∃ rank : Nat → Nat, ∀ consumer driver,
    graph.isActive consumer = true → graph.Reads consumer driver → rank driver < rank consumer

/-- The constant is where it belongs, every node lists exactly the edges that leave it, what
is declared is there, and no active node depends on itself. An active node may still read an
inactive one, as it does when it was added on top of a gate that had gone. -/
structure Linked (graph : Graph) : Prop where
  constant : ∃ node, graph.node? 0 = some node ∧ node.kind = .constant ∧ node.active = true
  only_constant : ∀ id node, graph.node? id = some node → node.kind = .constant → id = 0
  readable : ∀ consumer driver, graph.isActive consumer = true → graph.Reads consumer driver →
    ∃ node, graph.node? driver = some node ∧ node.kind.isOutput = false
  fanouts : ∀ id node, graph.node? id = some node → node.active = true →
    node.fanouts.Perm (graph.edgesFrom id)
  acyclic : graph.Acyclic
  inputs_nodup : graph.inputs.Nodup
  mem_inputs : ∀ id, id ∈ graph.inputs ↔ ∃ node, graph.node? id = some node ∧ node.kind = .input
  inputs_active : ∀ id ∈ graph.inputs, graph.isActive id = true
  outputs_nodup : graph.outputs.Nodup
  mem_outputs : ∀ id, id ∈ graph.outputs ↔
    ∃ node, graph.node? id = some node ∧ node.kind.isOutput = true
  outputs_active : ∀ id ∈ graph.outputs, graph.isActive id = true

structure WellFormed (graph : Graph) : Prop extends Linked graph where
  isActive_driver : ∀ consumer driver, graph.isActive consumer = true →
    graph.Reads consumer driver → graph.isActive driver = true

theorem isActive_eq_true_iff {graph : Graph} {id : Nat} :
    graph.isActive id = true ↔ ∃ node, graph.node? id = some node ∧ node.active = true := by
  cases found : graph.node? id <;> simp [isActive, found]

theorem fanins_of_node? {graph : Graph} {id : Nat} {node : Node}
    (found : graph.node? id = some node) : graph.fanins id = node.kind.fanins := by
  simp [fanins, found, Node.fanins]

theorem WellFormed.fanins {graph : Graph} (wellFormed : graph.WellFormed) (consumer driver : Nat)
    (active : graph.isActive consumer = true) (reads : graph.Reads consumer driver) :
    ∃ node, graph.node? driver = some node ∧ node.active = true ∧ node.kind.isOutput = false := by
  obtain ⟨node, found, noOutput⟩ := wellFormed.readable consumer driver active reads
  obtain ⟨other, otherFound, driverActive⟩ :=
    isActive_eq_true_iff.mp (wellFormed.isActive_driver consumer driver active reads)
  cases found.symm.trans otherFound
  exact ⟨node, found, driverActive, noOutput⟩

theorem Acyclic.exists_takes {graph : Graph} (acyclic : graph.Acyclic)
    (closed : ∀ consumer driver, graph.isActive consumer = true → graph.Reads consumer driver →
      graph.isActive driver = true)
    (assignment : Assignment) {id : Nat} (active : graph.isActive id = true) :
    ∃ value, graph.Takes assignment id value := by
  obtain ⟨rank, decreases⟩ := acyclic
  generalize bound : rank id = height
  induction height using Nat.strongRecOn generalizing id with
  | _ height induction =>
      obtain ⟨node, found, -⟩ := isActive_eq_true_iff.mp active
      have below : ∀ edge ∈ node.kind.fanins, ∃ value, graph.Takes assignment edge.node value := by
        intro edge member
        have reads : graph.Reads id edge.node :=
          ⟨edge, (fanins_of_node? found).symm ▸ member, rfl⟩
        exact induction _ (bound ▸ decreases _ _ active reads) (closed _ _ active reads) rfl
      cases kind : node.kind with
      | constant => exact ⟨_, .constant found kind⟩
      | input => exact ⟨_, .input found kind⟩
      | gate left right =>
          rw [kind] at below
          obtain ⟨_, leftTakes⟩ := below left (by simp [Kind.fanins])
          obtain ⟨_, rightTakes⟩ := below right (by simp [Kind.fanins])
          exact ⟨_, .gate found kind leftTakes rightTakes⟩
      | output driver =>
          rw [kind] at below
          obtain ⟨_, driverTakes⟩ := below driver (by simp [Kind.fanins])
          exact ⟨_, .output found kind driverTakes⟩

theorem WellFormed.exists_takes {graph : Graph} (wellFormed : graph.WellFormed)
    (assignment : Assignment) {id : Nat} (active : graph.isActive id = true) :
    ∃ value, graph.Takes assignment id value :=
  wellFormed.acyclic.exists_takes wellFormed.isActive_driver assignment active

private theorem node?_empty {id : Nat} {node : Node} (found : empty.node? id = some node) :
    id = 0 ∧ node = .ofKind .constant := by
  cases id with
  | zero => exact ⟨rfl, (Option.some.inj found).symm⟩
  | succ id => simp [node?, empty] at found

private theorem not_reads_empty {id : Nat} (active : empty.isActive id = true) (driver : Nat) :
    ¬empty.Reads id driver := by
  obtain ⟨node, found, -⟩ := isActive_eq_true_iff.mp active
  rintro ⟨edge, member, -⟩
  rw [fanins_of_node? found, (node?_empty found).2] at member
  cases member

theorem wellFormed_empty : empty.WellFormed where
  constant := ⟨.ofKind .constant, rfl, rfl, rfl⟩
  only_constant _ _ found _ := (node?_empty found).1
  readable _ driver active reads := absurd reads (not_reads_empty active driver)
  isActive_driver _ driver active reads := absurd reads (not_reads_empty active driver)
  fanouts id node found _ := by
    obtain ⟨rfl, rfl⟩ := node?_empty found
    exact .refl []
  acyclic := ⟨fun _ => 0, fun _ driver active reads => absurd reads (not_reads_empty active driver)⟩
  inputs_nodup := .nil
  mem_inputs id := by
    constructor
    · intro member
      cases member
    · rintro ⟨node, found, kind⟩
      rw [(node?_empty found).2] at kind
      cases kind
  inputs_active _ member := nomatch member
  outputs_nodup := .nil
  mem_outputs id := by
    constructor
    · intro member
      cases member
    · rintro ⟨node, found, kind⟩
      rw [(node?_empty found).2] at kind
      cases kind
  outputs_active _ member := nomatch member

end AndInverter.Graph
