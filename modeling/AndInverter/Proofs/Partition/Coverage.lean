import AndInverter.Proofs.Partition.Refinement
import AndInverter.Proofs.Simulation.Evaluation

namespace AndInverter

/-! Candidate classes cover a graph when candidates that carry the same signal, up to
inversion, share a class, and classes hold nothing but candidates. What holds for all
assignments holds in every lane, so no batch breaks the cover; and the first one makes it
exact, so that literals of such candidates carry the same signal as they stand in the class. -/

namespace Graph

variable {graph : Graph}

/-- The nodes that classes are made of: the constant and the active gates. -/
def Candidate (graph : Graph) (id : Nat) : Prop :=
  id = 0 ∨ graph.isGate id = true ∧ graph.isActive id = true

def Live (graph : Graph) : Prop :=
  ∀ id, graph.isGate id = true → graph.isActive id = true → id ∈ graph.order

theorem live_sweep (graph : Graph) : graph.sweep.Live :=
  fun _ isGate active => mem_order_sweep isGate active

theorem WellFormed.isActive_of_candidate (wellFormed : graph.WellFormed) {id : Nat}
    (candidate : graph.Candidate id) : graph.isActive id = true := by
  rcases candidate with rfl | ⟨-, active⟩
  · exact wellFormed.isActive_constant
  · exact active

theorem WellFormed.constant_not_mem_inputs (wellFormed : graph.WellFormed) :
    0 ∉ graph.inputs := by
  intro member
  rcases wellFormed.constant with ⟨node, found, kind, -⟩
  rcases (wellFormed.mem_inputs 0).mp member with ⟨other, otherFound, otherKind⟩
  cases found.symm.trans otherFound
  cases kind.symm.trans otherKind

end Graph

/-! ## Words -/

namespace Words

structure Ready (words : Words) (graph : Graph) : Prop where
  size : words.size = graph.size
  constant : words.ofNode 0 = 0#32

/-- In each lane the candidates have the values that they take under one assignment. -/
def Show (words : Words) (graph : Graph) : Prop :=
  ∀ lane < 32, ∃ assignment, ∀ id, graph.Candidate id →
    graph.Takes assignment id ((words.ofNode id).lane lane)

variable {graph : Graph} {words : Words}

theorem ready_zeros (graph : Graph) : (zeros graph.size).Ready graph where
  size := Array.size_replicate
  constant := ofNode_zeros graph.size 0

theorem Ready.simulate (ready : words.Ready graph) (wellFormed : graph.WellFormed)
    (batch : Batch) : (graph.simulate graph.order batch words).Ready graph := by
  have settled := wellFormed.evaluable.settled_simulate batch ready.size
  refine ⟨settled.size, ?_⟩
  by_cases seen : 0 ∈ graph.order
  · rcases wellFormed.constant with ⟨node, found, kind, -⟩
    apply Word.ext_lane
    intro lane inside
    rw [(Graph.takes_constant_iff found kind).mp (settled.shows 0 seen lane inside)]
    exact BitVec.getLsbD_zero.symm
  · rw [settled.others 0 seen, Graph.ofNode_drive_of_not_mem wellFormed.constant_not_mem_inputs,
      ready.constant]

theorem Ready.takes_simulate (ready : words.Ready graph) (wellFormed : graph.WellFormed)
    (live : graph.Live) (batch : Batch) {id : Nat} (candidate : graph.Candidate id) {lane : Nat}
    (inside : lane < 32) :
    graph.Takes ((graph.drive batch words).assignment lane) id
      (((graph.simulate graph.order batch words).ofNode id).lane lane) := by
  rcases candidate with rfl | ⟨isGate, active⟩
  · rcases wellFormed.constant with ⟨node, found, kind, -⟩
    rw [Graph.takes_constant_iff found kind, (ready.simulate wellFormed batch).constant]
    exact BitVec.getLsbD_zero
  · have settled := wellFormed.evaluable.settled_simulate batch ready.size
    exact settled.shows id (live id isGate active) lane inside

theorem Ready.show_simulate (ready : words.Ready graph) (wellFormed : graph.WellFormed)
    (live : graph.Live) (batch : Batch) :
    (graph.simulate graph.order batch words).Show graph :=
  fun _ inside => ⟨_, fun _ candidate =>
    ready.takes_simulate wellFormed live batch candidate inside⟩

theorem Show.ofLiteral_eq (shows : words.Show graph) {left right : Literal}
    (leftCandidate : graph.Candidate left.node) (rightCandidate : graph.Candidate right.node)
    (same : graph.SameSignal left right) : words.ofLiteral left = words.ofLiteral right := by
  apply Word.ext_lane
  intro lane inside
  rcases shows lane inside with ⟨assignment, takes⟩
  have leftCarries := Graph.takes_iff_carries.mp (takes left.node leftCandidate)
  have rightCarries := Graph.takes_iff_carries.mp (takes right.node rightCandidate)
  rw [lane_ofLiteral _ _ inside, lane_ofLiteral _ _ inside]
  exact ((same assignment _).mp leftCarries).unique rightCarries

end Words

/-! ## Covers -/

namespace Partition

variable {graph : Graph} {partition : Partition}

/-- Classes of candidates, none of which holds a node twice, with candidates together
that carry the same signal up to inversion. -/
structure Covers (partition : Partition) (graph : Graph) : Prop where
  led : ∀ members ∈ partition.classes, Led members
  distinct : ∀ members ∈ partition.classes, (members.map Literal.node).Nodup
  candidates : ∀ members ∈ partition.classes, ∀ id ∈ members.map Literal.node, graph.Candidate id
  joins : ∀ left right : Literal, graph.Candidate left.node → graph.Candidate right.node →
    left.node ≠ right.node → graph.SameSignal left right →
      partition.Joins left.node right.node

/-- Candidates with the same signal stand in a class as they are, or both inverted. -/
def Exact (partition : Partition) (graph : Graph) : Prop :=
  ∀ left right : Literal, graph.Candidate left.node → graph.Candidate right.node →
    left.node ≠ right.node → graph.SameSignal left right → partition.Equates left right

/-! At first all candidates are together. -/

private theorem eq_of_mem_initial {members : List Literal}
    (member : members ∈ (initial graph).classes) :
    members = Literal.low :: graph.activeGates.map Literal.plain :=
  List.mem_singleton.mp (mem_ofClasses_iff.mp member).1

theorem led_of_mem_initial {members : List Literal}
    (member : members ∈ (initial graph).classes) : Led members := by
  intro pivot first
  rw [eq_of_mem_initial member] at first
  cases first
  rfl

theorem nodes_of_mem_initial {members : List Literal}
    (member : members ∈ (initial graph).classes) :
    members.map Literal.node = 0 :: graph.activeGates := by
  rw [eq_of_mem_initial member, List.map_cons, nodes_map_plain]
  rfl

theorem candidate_iff_mem {id : Nat} : graph.Candidate id ↔ id ∈ 0 :: graph.activeGates := by
  rw [List.mem_cons, Graph.mem_activeGates, Graph.Candidate]

theorem joins_initial {first second : Nat} (firstCandidate : graph.Candidate first)
    (secondCandidate : graph.Candidate second) (different : first ≠ second) :
    (initial graph).Joins first second := by
  have nodes : (Literal.low :: graph.activeGates.map Literal.plain).map Literal.node =
      0 :: graph.activeGates := by
    rw [List.map_cons, nodes_map_plain]
    rfl
  have firstMember := candidate_iff_mem.mp firstCandidate
  have secondMember := candidate_iff_mem.mp secondCandidate
  rw [← nodes] at firstMember secondMember
  refine ⟨_, mem_ofClasses_iff.mpr ⟨List.mem_singleton_self _, ?_⟩, firstMember, secondMember⟩
  rcases List.mem_map.mp firstMember with ⟨left, leftMember, rfl⟩
  rcases List.mem_map.mp secondMember with ⟨right, rightMember, rfl⟩
  exact two_le_length leftMember rightMember different

theorem nodup_candidates (constant : graph.isGate 0 = false) : (0 :: graph.activeGates).Nodup := by
  rw [List.nodup_cons]
  constructor
  · intro inside
    rw [Graph.mem_activeGates, constant] at inside
    cases inside.1
  · exact graph.nodup_ids.filter _

theorem covers_initial (wellFormed : graph.WellFormed) : (initial graph).Covers graph where
  led _ member := led_of_mem_initial member
  distinct members member := by
    rw [nodes_of_mem_initial member]
    exact nodup_candidates wellFormed.isGate_constant
  candidates members member id inside := by
    rw [nodes_of_mem_initial member] at inside
    exact candidate_iff_mem.mpr inside
  joins _ _ leftCandidate rightCandidate different _ :=
    joins_initial leftCandidate rightCandidate different

theorem Covers.exact_refine (covers : partition.Covers graph) {words : Words}
    (shows : words.Show graph) : (partition.refine words).Exact graph := by
  intro left right leftCandidate rightCandidate different same
  have joins := covers.joins left right leftCandidate rightCandidate different same
  exact equates_refine covers.led joins different
    (shows.ofLiteral_eq leftCandidate rightCandidate same)

theorem Covers.refine (covers : partition.Covers graph) {words : Words}
    (shows : words.Show graph) : (partition.refine words).Covers graph where
  led members member := (source_of_mem_refine covers.led member).1
  distinct members member := by
    rcases source_of_mem_refine covers.led member with ⟨-, source, found, fewer⟩
    exact (covers.distinct source found).sublist fewer
  candidates members member id inside := by
    rcases source_of_mem_refine covers.led member with ⟨-, source, found, fewer⟩
    exact covers.candidates source found id (fewer.subset inside)
  joins left right leftCandidate rightCandidate different same :=
    (covers.exact_refine shows left right leftCandidate rightCandidate different same).joins

/-! The order of the classes does not matter. -/

theorem mem_sorted_iff {members : List Literal} :
    members ∈ partition.sorted.classes ↔ members ∈ partition.classes :=
  List.mem_mergeSort

theorem Covers.sorted (covers : partition.Covers graph) : partition.sorted.Covers graph where
  led members member := covers.led members (mem_sorted_iff.mp member)
  distinct members member := covers.distinct members (mem_sorted_iff.mp member)
  candidates members member := covers.candidates members (mem_sorted_iff.mp member)
  joins left right leftCandidate rightCandidate different same := by
    rcases covers.joins left right leftCandidate rightCandidate different same with
      ⟨members, member, together⟩
    exact ⟨members, mem_sorted_iff.mpr member, together⟩

theorem Exact.sorted (holds : partition.Exact graph) : partition.sorted.Exact graph := by
  intro left right leftCandidate rightCandidate different same
  rcases holds left right leftCandidate rightCandidate different same with
    ⟨members, member, together⟩
  exact ⟨members, mem_sorted_iff.mpr member, together⟩

end Partition

end AndInverter
