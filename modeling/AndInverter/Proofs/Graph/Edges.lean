import AndInverter.Meaning.WellFormed
import Mathlib.Data.List.Nodup
import Mathlib.Logic.Relation

namespace AndInverter.Graph

/-! Edges and paths. The edges from a node to its active consumers are counted
rather than listed, since the order in which a node lists them is free. A node
sees what lies at the end of a path of edges, where only active nodes are read
further; in an acyclic graph no two nodes see each other. -/

/-! ## Edges -/

/-- How often `fanout` stands for an edge from `driver` to an active consumer. -/
def edgeCount (graph : Graph) (driver : Nat) (fanout : Literal) : Nat :=
  if graph.isActive fanout.node then
    (graph.fanins fanout.node).count ⟨driver, fanout.inverted⟩
  else 0

theorem isActive_of_node? {graph : Graph} {id : Nat} {node : Node}
    (found : graph.node? id = some node) : graph.isActive id = node.active := by
  simp [isActive, found]

theorem isGate_of_node? {graph : Graph} {id : Nat} {node : Node}
    (found : graph.node? id = some node) : graph.isGate id = node.kind.isGate := by
  simp [isGate, found]

theorem isActive_eq_false_of_none {graph : Graph} {id : Nat}
    (missing : graph.node? id = none) : graph.isActive id = false := by
  simp [isActive, missing]

theorem fanins_eq_nil_of_none {graph : Graph} {id : Nat}
    (missing : graph.node? id = none) : graph.fanins id = [] := by
  simp [fanins, missing]

theorem node?_of_mem_fanins {graph : Graph} {id : Nat} {edge : Literal}
    (member : edge ∈ graph.fanins id) :
    ∃ node, graph.node? id = some node ∧ edge ∈ node.kind.fanins := by
  cases found : graph.node? id with
  | none =>
      rw [fanins_eq_nil_of_none found] at member
      cases member
  | some node =>
      rw [fanins_of_node? found] at member
      exact ⟨node, rfl, member⟩

theorem isDefined_of_isActive {graph : Graph} {id : Nat} (active : graph.isActive id = true) :
    graph.isDefined id = true := by
  rcases isActive_eq_true_iff.mp active with ⟨node, found, -⟩
  simp [isDefined, found]

theorem nodup_ids (graph : Graph) : graph.ids.Nodup :=
  List.Nodup.filter _ List.nodup_range

theorem mem_activeGates {graph : Graph} {id : Nat} :
    id ∈ graph.activeGates ↔ graph.isGate id = true ∧ graph.isActive id = true := by
  simp only [activeGates, List.mem_filter, mem_ids, Bool.and_eq_true]
  constructor
  · intro holds
    exact holds.2
  · intro holds
    exact ⟨isDefined_of_isActive holds.2, holds⟩

theorem count_edgesBetween (graph : Graph) (driver consumer : Nat) (fanout : Literal) :
    (graph.edgesBetween driver consumer).count fanout =
      if consumer = fanout.node then (graph.fanins consumer).count ⟨driver, fanout.inverted⟩
      else 0 := by
  rw [edgesBetween, List.count_eq_countP, List.countP_map, List.countP_filter]
  split
  · rename_i same
    rw [List.count_eq_countP]
    apply List.countP_congr
    intro edge _
    rcases edge with ⟨node, inverted⟩
    rcases fanout with ⟨fanoutNode, flag⟩
    simp only at same
    simp [same, and_comm]
  · rename_i different
    rw [List.countP_eq_zero]
    intro edge _
    rcases fanout with ⟨fanoutNode, flag⟩
    simp only at different
    simp [different]

private theorem count_flatMap_edgesBetween (graph : Graph) (driver : Nat) (fanout : Literal)
    {consumers : List Nat} (nodup : consumers.Nodup) :
    (consumers.flatMap (graph.edgesBetween driver)).count fanout =
      if fanout.node ∈ consumers then
        (graph.fanins fanout.node).count ⟨driver, fanout.inverted⟩
      else 0 := by
  induction consumers with
  | nil => rfl
  | cons head tail induction =>
      have parts := List.nodup_cons.mp nodup
      rw [List.flatMap_cons, List.count_append, induction parts.2, count_edgesBetween]
      by_cases same : head = fanout.node
      · subst same
        simp [parts.1]
      · simp [same, Ne.symm same]

theorem count_edgesFrom (graph : Graph) (driver : Nat) (fanout : Literal) :
    (graph.edgesFrom driver).count fanout = graph.edgeCount driver fanout := by
  rw [edgesFrom, count_flatMap_edgesBetween graph driver fanout
    (List.Nodup.filter _ graph.nodup_ids), edgeCount]
  by_cases active : graph.isActive fanout.node = true
  · simp [active, mem_ids, isDefined_of_isActive active]
  · simp [active]

theorem perm_edgesFrom_iff {graph : Graph} {driver : Nat} {fanouts : List Literal} :
    fanouts.Perm (graph.edgesFrom driver) ↔
      ∀ fanout, fanouts.count fanout = graph.edgeCount driver fanout := by
  rw [List.perm_iff_count]
  constructor
  · intro equal fanout
    rw [equal fanout, count_edgesFrom]
  · intro equal fanout
    rw [equal fanout, count_edgesFrom]

theorem edgeCount_pos_iff {graph : Graph} {driver : Nat} {fanout : Literal} :
    0 < graph.edgeCount driver fanout ↔
      graph.isActive fanout.node = true ∧
        (⟨driver, fanout.inverted⟩ : Literal) ∈ graph.fanins fanout.node := by
  rw [edgeCount]
  split
  · rename_i active
    simp [active]
  · rename_i inactive
    simp [inactive]

namespace Linked

variable {graph : Graph} (linked : graph.Linked)

include linked

theorem count_fanouts {id : Nat} {node : Node} (found : graph.node? id = some node)
    (active : node.active = true) (fanout : Literal) :
    node.fanouts.count fanout = graph.edgeCount id fanout :=
  perm_edgesFrom_iff.mp (linked.fanouts id node found active) fanout

theorem mem_fanouts_iff {id : Nat} {node : Node} (found : graph.node? id = some node)
    (active : node.active = true) {fanout : Literal} :
    fanout ∈ node.fanouts ↔ graph.isActive fanout.node = true ∧
      (⟨id, fanout.inverted⟩ : Literal) ∈ graph.fanins fanout.node := by
  rw [← List.count_pos_iff, linked.count_fanouts found active, edgeCount_pos_iff]

theorem reads_of_mem_fanouts {id : Nat} {node : Node} (found : graph.node? id = some node)
    (active : node.active = true) {fanout : Literal} (member : fanout ∈ node.fanouts) :
    graph.Reads fanout.node id :=
  ⟨_, ((linked.mem_fanouts_iff found active).mp member).2, rfl⟩

theorem isActive_constant : graph.isActive 0 = true := by
  rcases linked.constant with ⟨node, found, -, active⟩
  exact isActive_eq_true_iff.mpr ⟨node, found, active⟩

theorem not_reads_constant {driver : Nat} : ¬graph.Reads 0 driver := by
  rcases linked.constant with ⟨node, found, kind, -⟩
  rintro ⟨edge, member, -⟩
  rw [fanins_of_node? found, kind] at member
  cases member

theorem isGate_constant : graph.isGate 0 = false := by
  rcases linked.constant with ⟨node, found, kind, -⟩
  rw [isGate_of_node? found, kind]
  rfl

end Linked

/-! ## Paths -/

/-- One edge that is followed: an active node reads another one. -/
def Follows (graph : Graph) (consumer driver : Nat) : Prop :=
  graph.isActive consumer = true ∧ graph.Reads consumer driver

def Sees (graph : Graph) : Nat → Nat → Prop :=
  Relation.ReflTransGen graph.Follows

def Observed (graph : Graph) (id : Nat) : Prop :=
  ∃ output ∈ graph.outputs, graph.Sees output id

theorem reads_of_mem {graph : Graph} {id : Nat} {edge : Literal}
    (member : edge ∈ graph.fanins id) : graph.Reads id edge.node :=
  ⟨edge, member, rfl⟩

theorem WellFormed.isActive_of_observed {graph : Graph} (wellFormed : graph.WellFormed) {id : Nat}
    (observed : graph.Observed id) : graph.isActive id = true := by
  rcases observed with ⟨output, member, sees⟩
  induction sees with
  | refl => exact wellFormed.outputs_active output member
  | tail _ edge _ => exact wellFormed.isActive_driver _ _ edge.1 edge.2

theorem Acyclic.rank_lt {graph : Graph} {rank : Nat → Nat}
    (decreases : ∀ consumer driver, graph.isActive consumer = true →
      graph.Reads consumer driver → rank driver < rank consumer)
    {root target : Nat} (path : Relation.TransGen graph.Follows root target) :
    rank target < rank root := by
  induction path with
  | single edge => exact decreases _ _ edge.1 edge.2
  | tail _ edge induction => exact Nat.lt_trans (decreases _ _ edge.1 edge.2) induction

theorem Acyclic.not_transGen {graph : Graph} (acyclic : graph.Acyclic) (id : Nat) :
    ¬Relation.TransGen graph.Follows id id := by
  intro path
  rcases acyclic with ⟨rank, decreases⟩
  exact Nat.lt_irrefl _ (rank_lt decreases path)

/-- No node that some root sees depends on itself; elsewhere there may be cycles. -/
def AcyclicBelow (graph : Graph) (roots : List Nat) : Prop :=
  ∀ root ∈ roots, ∀ id, graph.Sees root id → ¬Relation.TransGen graph.Follows id id

theorem Acyclic.below {graph : Graph} (acyclic : graph.Acyclic) (roots : List Nat) :
    graph.AcyclicBelow roots :=
  fun _ _ id _ => acyclic.not_transGen id

theorem Acyclic.eq_of_sees {graph : Graph} (acyclic : graph.Acyclic) {first second : Nat}
    (down : graph.Sees first second) (up : graph.Sees second first) : first = second := by
  rcases Relation.reflTransGen_iff_eq_or_transGen.mp down with equal | path
  · exact equal.symm
  · exact absurd (Relation.TransGen.trans_left path up) (acyclic.not_transGen first)

end AndInverter.Graph
