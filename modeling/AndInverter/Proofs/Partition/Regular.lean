import AndInverter.Proofs.Arising
import AndInverter.Proofs.Partition.Signatures

namespace AndInverter

/-! What classes are like, whatever has been done to them. They hold two nodes or more, in
ascending order, the first one not inverted, and no node is in two of them. Once they have been
sorted and recorded, they stand in the order of their pivots. -/

namespace Partition

structure Regular (partition : Partition) : Prop where
  large : ∀ members ∈ partition.classes, 2 ≤ members.length
  ascending : ∀ members ∈ partition.classes, (members.map Literal.node).Pairwise (· < ·)
  led : ∀ members ∈ partition.classes, Led members
  nodup : partition.nodes.Nodup
  constant_first : ∀ members ∈ partition.classes, 0 ∈ members.map Literal.node →
    members.head?.map Literal.node = some 0

def PivotsAscend (partition : Partition) : Prop :=
  partition.classes.Pairwise fun earlier later =>
    ∀ first ∈ earlier.head?, ∀ second ∈ later.head?, first.node < second.node

variable {partition : Partition}

theorem head?_of_ascending {members : List Literal}
    (ascending : (members.map Literal.node).Pairwise (· < ·))
    (inside : 0 ∈ members.map Literal.node) : members.head?.map Literal.node = some 0 := by
  cases members with
  | nil => cases inside
  | cons pivot others =>
      rcases List.mem_cons.mp inside with first | later
      · rw [List.head?_cons, Option.map_some, ← first]
      · exact absurd (List.rel_of_pairwise_cons ascending later) (Nat.not_lt_zero _)

theorem Regular.of_ascending (large : ∀ members ∈ partition.classes, 2 ≤ members.length)
    (ascending : ∀ members ∈ partition.classes, (members.map Literal.node).Pairwise (· < ·))
    (led : ∀ members ∈ partition.classes, Led members) (nodup : partition.nodes.Nodup) :
    partition.Regular :=
  ⟨large, ascending, led, nodup,
    fun members member => head?_of_ascending (ascending members member)⟩

/-! ## One step -/

theorem regular_empty : empty.Regular :=
  .of_ascending (fun _ member => nomatch member) (fun _ member => nomatch member)
    (fun _ member => nomatch member) List.nodup_nil

theorem ascending_candidates {graph : Graph} (constant : graph.isGate 0 = false) :
    (0 :: graph.activeGates).Pairwise (· < ·) := by
  rw [List.pairwise_cons]
  constructor
  · intro id member
    refine Nat.pos_of_ne_zero ?_
    rintro rfl
    rw [Graph.mem_activeGates, constant] at member
    cases member.1
  · exact (List.pairwise_lt_range.filter _).filter _

theorem regular_initial {graph : Graph} (constant : graph.isGate 0 = false) :
    (initial graph).Regular := by
  have proper := proper_initial constant
  refine .of_ascending proper.large ?_ proper.led proper.nodup
  intro members member
  rw [nodes_of_mem_initial member]
  exact ascending_candidates constant

theorem perm_nodes_sorted (partition : Partition) : partition.sorted.nodes.Perm partition.nodes :=
  (List.mergeSort_perm partition.classes classLE).flatMap_right _

namespace Regular

variable (regular : partition.Regular)

include regular

theorem refine (words : Words) : (partition.refine words).Regular := by
  refine .of_ascending (fun _ member => (mem_ofClasses_iff.mp member).2) ?_
    (fun _ member => (source_of_mem_refine regular.led member).1) ?_
  · intro members member
    rcases source_of_mem_refine regular.led member with ⟨-, source, found, fewer⟩
    exact (regular.ascending source found).sublist fewer
  · rcases nodes_refine_subperm words partition with ⟨fewer, perm, sublist⟩
    exact perm.nodup_iff.mp (regular.nodup.sublist sublist)

theorem refineAll (batches : List Words) : (partition.refineAll batches).Regular := by
  induction batches generalizing partition with
  | nil => exact regular
  | cons words others induction => exact induction (regular.refine words)

theorem sorted : partition.sorted.Regular :=
  .of_ascending (fun members member => regular.large members (mem_sorted_iff.mp member))
    (fun members member => regular.ascending members (mem_sorted_iff.mp member))
    (fun members member => regular.led members (mem_sorted_iff.mp member))
    ((perm_nodes_sorted partition).nodup_iff.mpr regular.nodup)

end Regular

theorem pairwise_classLE_sorted (partition : Partition) :
    partition.sorted.classes.Pairwise fun left right => classLE left right = true := by
  apply List.pairwise_mergeSort
  · intro first second third lower upper
    rw [classLE, decide_eq_true_eq] at lower upper ⊢
    exact List.le_trans lower upper
  · intro left right
    rw [classLE, classLE, Bool.or_eq_true, decide_eq_true_eq, decide_eq_true_eq]
    exact List.le_total _ _

theorem raw_le_of_classLE {left right : List Literal} (ordered : classLE left right = true)
    {first second : Literal} (leftFirst : first ∈ left.head?) (rightFirst : second ∈ right.head?) :
    first.raw ≤ second.raw := by
  cases left with
  | nil => cases leftFirst
  | cons first' others =>
      cases right with
      | nil => cases rightFirst
      | cons second' others' =>
          cases leftFirst
          cases rightFirst
          rw [classLE, decide_eq_true_eq] at ordered
          rcases List.cons_le_cons_iff.mp ordered with less | ⟨equal, -⟩
          · exact Nat.le_of_lt less
          · exact Nat.le_of_eq equal

theorem Regular.pivotsAscend_sorted (regular : partition.Regular) :
    partition.sorted.PivotsAscend := by
  have apart := (List.nodup_flatMap.mp regular.sorted.nodup).2
  refine ((pairwise_classLE_sorted partition).and apart).imp_of_mem ?_
  intro left right leftMember rightMember ordered first leftFirst second rightFirst
  have leftLed := regular.sorted.led left leftMember first leftFirst
  have rightLed := regular.sorted.led right rightMember second rightFirst
  have le := raw_le_of_classLE ordered.1 leftFirst rightFirst
  have different : first.node ≠ second.node := by
    intro equal
    have inLeft := List.mem_map_of_mem (f := Literal.node) (List.mem_of_mem_head? leftFirst)
    have inRight := List.mem_map_of_mem (f := Literal.node) (List.mem_of_mem_head? rightFirst)
    exact ordered.2 inLeft (equal ▸ inRight)
  rw [Literal.raw, Literal.raw, leftLed, rightLed] at le
  omega

/-- Whatever was done to a graph before, classes begin anew with it: they are regular after any
batches, and split by the signatures. -/
theorem classes_of_arises {graph : Graph} (arises : graph.Arises) (batches : List Words) :
    ((initial graph).refineAll batches).Regular ∧
      ((initial graph).refineAll batches).SplitBy graph batches :=
  ⟨(regular_initial arises.isGate_constant).refineAll batches,
    splitBy_refineAll arises.isGate_constant batches⟩

/-! ## Any steps -/

inductive Step
  /-- begins anew; in a graph that arises the constant is no gate (`classes_of_arises`) -/
  | reset (graph : Graph) (constant : graph.isGate 0 = false)
  | refine (words : Words)
  | finalize (graph : Graph)
  | clear

def apply (partition : Partition) : Step → Partition
  | .reset graph _ => initial graph
  | .refine words => partition.refine words
  | .finalize graph => (partition.finalize graph).1
  | .clear => empty

def applyAll (steps : List Step) : Partition :=
  steps.foldl apply empty

theorem Regular.apply (regular : partition.Regular) (step : Step) :
    (partition.apply step).Regular := by
  cases step with
  | reset graph constant => exact regular_initial constant
  | refine words => exact regular.refine words
  | finalize graph => exact regular.sorted
  | clear => exact regular_empty

theorem regular_steps (steps : List Step) : (applyAll steps).Regular := by
  induction steps using List.reverseRecOn with
  | nil => exact regular_empty
  | append_singleton earlier step induction =>
      rw [applyAll, List.foldl_append]
      exact induction.apply step

/-- Whatever a new partition goes through, its classes hold two nodes or more, in ascending
order, the first one not inverted; no node is in two of them, and the constant is in none but
as its first member. After they have been sorted and recorded, with success or without, they
stand in the order of their first members. -/
theorem regular_applyAll (steps : List Step) : (applyAll steps).Regular ∧
    ∀ earlier graph, steps = earlier ++ [.finalize graph] → (applyAll steps).PivotsAscend := by
  refine ⟨regular_steps steps, ?_⟩
  rintro earlier graph rfl
  rw [applyAll, List.foldl_append]
  exact (regular_steps earlier).pivotsAscend_sorted

theorem refine_twins : (initial Graph.twins).refine #[0#32, 0#32, 0#32, 6#32, ~~~6#32] =
    ⟨[[.low, .plain 5], [.plain 3, ⟨4, true⟩]]⟩ := by
  have candidates : (initial Graph.twins).classes = [[.low, .plain 3, .plain 4, .plain 5]] := by
    decide
  have grouped : group #[0#32, 0#32, 0#32, 6#32, ~~~6#32] [3, 4] = [[.plain 3, ⟨4, true⟩]] := by
    rw [group]
    change [_, _] :: group _ [] = _
    rw [group]
  rw [Partition.refine, candidates]
  change ofClasses (_ ++ (group _ [3, 4] ++ [])) = _
  rw [grouped]
  decide

/-- Some members of the classes are not in the graph that they are recorded in. -/
theorem regular_applyAll_twins :
    let refined : List Step := [.reset Graph.twins rfl, .refine #[0#32, 0#32, 0#32, 6#32, ~~~6#32]]
    let steps := refined ++ [.finalize .empty]
    ((applyAll refined).finalize .empty).2.2 = .error (.missingNode 5) ∧
      (applyAll steps).classes = [[.low, .plain 5], [.plain 3, ⟨4, true⟩]] ∧
        (applyAll steps).Regular ∧ (applyAll steps).PivotsAscend := by
  intro refined steps
  have found : (applyAll refined).sorted = ⟨[[.low, .plain 5], [.plain 3, ⟨4, true⟩]]⟩ := by
    change ((initial Graph.twins).refine _).sorted = _
    rw [refine_twins, sorted, List.mergeSort_of_pairwise (by decide)]
  rcases regular_applyAll steps with ⟨regular, ascend⟩
  refine ⟨?_, congrArg Partition.classes found, regular, ascend refined .empty rfl⟩
  rw [finalize, found]
  decide

end Partition

end AndInverter
