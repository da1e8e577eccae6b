import AndInverter.Proofs.Graph.Construction
import AndInverter.Proofs.Partition.Coverage
import Mathlib.Data.List.Flatten
import Mathlib.Data.List.Induction
import Mathlib.Data.List.Pairwise
import Mathlib.Data.List.Perm.Basic

namespace AndInverter

/-! Partitions by signatures. After any number of batches two candidates share a class exactly
when every batch gave them the same word, or opposite ones: a refinement separates what its
batch tells apart and nothing else, and what has gone alone into a new class stays alone. Since
the batches count one by one, their order does not matter. -/

namespace Words

def Alike (words : Words) (first second : Nat) : Prop :=
  words.ofNode first = words.ofNode second ∨ words.ofNode first = ~~~ words.ofNode second

instance (words : Words) (first second : Nat) : Decidable (words.Alike first second) :=
  inferInstanceAs (Decidable (_ ∨ _))

theorem alike_of_ofLiteral_eq {words : Words} {left right : Literal}
    (same : words.ofLiteral left = words.ofLiteral right) : words.Alike left.node right.node := by
  rw [ofLiteral_eq, ofLiteral_eq] at same
  split at same <;> split at same
  · exact .inl (BitVec.not_inj.mp same)
  · exact .inr (BitVec.not_eq_comm.mp same)
  · exact .inr same
  · exact .inl same

theorem Alike.exists_ofLiteral_eq {words : Words} {first second : Nat}
    (alike : words.Alike first second) :
    ∃ flip, words.ofLiteral (.plain first) = words.ofLiteral ⟨second, flip⟩ := by
  rcases alike with equal | opposite
  · exact ⟨false, by rwa [ofLiteral_eq, ofLiteral_eq]⟩
  · exact ⟨true, by rwa [ofLiteral_eq, ofLiteral_eq]⟩

end Words

namespace Partition

def refineAll (batches : List Words) (partition : Partition) : Partition :=
  batches.foldl (fun partition words => partition.refine words) partition

theorem refineAll_append_singleton (batches : List Words) (words : Words)
    (partition : Partition) :
    partition.refineAll (batches ++ [words]) = (partition.refineAll batches).refine words := by
  rw [refineAll, List.foldl_append]
  rfl

/-! ## Nodes are kept or evicted -/

variable {words : Words}

theorem perm_nodes_kept (words : Words) (members : List Literal) :
    ((kept words members).map Literal.node ++ evicted words members).Perm
      (members.map Literal.node) := by
  cases members with
  | nil => exact .nil
  | cons pivot others =>
      simp only [kept, evicted, List.map_cons, List.cons_append]
      apply List.Perm.cons
      induction others with
      | nil => exact .nil
      | cons member others induction =>
          rw [List.filterMap_cons, List.filter_cons]
          cases stays : keep? words (words.ofNode pivot.node) member with
          | none => exact List.perm_middle.trans (induction.cons member.node)
          | some literal =>
              rw [List.map_cons, List.map_cons, (keep?_eq_some_iff.mp stays).1]
              exact induction.cons member.node

theorem perm_nodes_group (words : Words) (ids : List Nat) :
    ((group words ids).flatMap fun members => members.map Literal.node).Perm ids := by
  induction ids using group_induction words with
  | empty =>
      rw [group]
      exact .nil
  | round pivot others induction =>
      rw [group_cons, List.flatMap_cons]
      have rest := perm_nodes_kept words ((pivot :: others).map Literal.plain)
      rw [nodes_map_plain] at rest
      exact (induction.append_left _).trans rest

def nodes (partition : Partition) : List Nat :=
  partition.classes.flatMap fun members => members.map Literal.node

theorem nodes_refine_subperm (words : Words) (partition : Partition) :
    (partition.refine words).nodes.Subperm partition.nodes := by
  have fewer : (partition.refine words).nodes.Sublist
      ((partition.classes.map (kept words) ++
        partition.classes.flatMap fun members => group words (evicted words members)).flatMap
          fun members => members.map Literal.node) :=
    List.filter_sublist.flatMap _
  apply fewer.subperm.trans
  apply List.Perm.subperm
  rw [List.flatMap_append, List.flatMap_map, List.flatMap_assoc]
  apply (List.flatMap_append_perm _ _ _).trans
  apply List.Perm.flatMap_left
  intro members _
  exact ((perm_nodes_group words _).append_left _).trans (perm_nodes_kept words members)

/-- Classes of two candidates or more, in which no candidate stands twice. -/
structure Proper (partition : Partition) (graph : Graph) : Prop where
  led : ∀ members ∈ partition.classes, Led members
  large : ∀ members ∈ partition.classes, 2 ≤ members.length
  nodup : partition.nodes.Nodup
  candidates : ∀ id ∈ partition.nodes, graph.Candidate id

variable {graph : Graph} {partition : Partition}

theorem mem_nodes {id : Nat} :
    id ∈ partition.nodes ↔ ∃ members ∈ partition.classes, id ∈ members.map Literal.node :=
  List.mem_flatMap

theorem proper_initial (constant : graph.isGate 0 = false) : (initial graph).Proper graph where
  led _ member := led_of_mem_initial member
  large _ member := (mem_ofClasses_iff.mp member).2
  nodup := by
    have nodes : (initial graph).nodes.Sublist (0 :: graph.activeGates) := by
      have fewer : (initial graph).nodes.Sublist
          ([Literal.low :: graph.activeGates.map Literal.plain].flatMap
            fun members => members.map Literal.node) := List.filter_sublist.flatMap _
      rwa [List.flatMap_singleton, List.map_cons, nodes_map_plain] at fewer
    exact (nodup_candidates constant).sublist nodes
  candidates id member := by
    rcases mem_nodes.mp member with ⟨members, found, inside⟩
    rw [nodes_of_mem_initial found] at inside
    exact candidate_iff_mem.mpr inside

namespace Proper

variable (proper : partition.Proper graph)

include proper

theorem refine (words : Words) : (partition.refine words).Proper graph where
  led _ member := (source_of_mem_refine proper.led member).1
  large _ member := (mem_ofClasses_iff.mp member).2
  nodup := by
    rcases nodes_refine_subperm words partition with ⟨fewer, perm, sublist⟩
    exact perm.nodup_iff.mp (proper.nodup.sublist sublist)
  candidates id member :=
    proper.candidates id ((nodes_refine_subperm words partition).subset member)

theorem refineAll (batches : List Words) : (partition.refineAll batches).Proper graph := by
  induction batches using List.reverseRecOn with
  | nil => exact proper
  | append_singleton earlier words induction =>
      rw [refineAll_append_singleton]
      exact induction.refine words

theorem eq_of_mem_of_mem {first second : List Literal} (firstMember : first ∈ partition.classes)
    (secondMember : second ∈ partition.classes) {id : Nat} (inFirst : id ∈ first.map Literal.node)
    (inSecond : id ∈ second.map Literal.node) : first = second := by
  by_contra different
  have apart := (List.nodup_flatMap.mp proper.nodup).2
  have symmetric : Std.Symm (Function.onFun List.Disjoint fun members : List Literal =>
      members.map Literal.node) :=
    ⟨fun _ _ disjoint _ inSecond inFirst => disjoint inFirst inSecond⟩
  exact apart.forall firstMember secondMember different inFirst inSecond

theorem exists_other {members : List Literal} (member : members ∈ partition.classes) (id : Nat) :
    ∃ other ∈ members.map Literal.node, other ≠ id := by
  have nodup := (List.nodup_flatMap.mp proper.nodup).1 members member
  have large : 2 ≤ (members.map Literal.node).length := by
    rw [List.length_map]
    exact proper.large members member
  by_contra alone
  have only : members.map Literal.node ⊆ [id] := by
    intro other otherInside
    by_contra different
    exact alone ⟨other, otherInside, fun equal => different (List.mem_singleton.mpr equal)⟩
  have short := (nodup.subperm only).length_le
  rw [List.length_singleton] at short
  omega

theorem candidate_of_joins {first second : Nat} (joins : partition.Joins first second) :
    graph.Candidate first ∧ graph.Candidate second := by
  rcases joins with ⟨members, member, firstInside, secondInside⟩
  exact ⟨proper.candidates first (mem_nodes.mpr ⟨members, member, firstInside⟩),
    proper.candidates second (mem_nodes.mpr ⟨members, member, secondInside⟩)⟩

theorem mem_class_iff {members : List Literal}
    (member : members ∈ partition.classes) {id : Nat} (inside : id ∈ members.map Literal.node)
    (other : Nat) : other ∈ members.map Literal.node ↔ other = id ∨ partition.Joins id other := by
  constructor
  · intro otherInside
    exact .inr ⟨members, member, inside, otherInside⟩
  · rintro (rfl | ⟨source, found, idSource, otherSource⟩)
    · exact inside
    · rwa [proper.eq_of_mem_of_mem member found inside idSource]

theorem exists_same_class {other : Partition} (otherProper : other.Proper graph)
    (same : ∀ first second, first ≠ second →
      (partition.Joins first second ↔ other.Joins first second))
    {members : List Literal} (member : members ∈ partition.classes) :
    ∃ equal ∈ other.classes, ∀ id, id ∈ equal.map Literal.node ↔ id ∈ members.map Literal.node := by
  rcases proper.exists_other member 0 with ⟨pivot, pivotInside, -⟩
  rcases proper.exists_other member pivot with ⟨second, secondInside, different⟩
  have joins : partition.Joins pivot second := ⟨members, member, pivotInside, secondInside⟩
  rcases (same pivot second (Ne.symm different)).mp joins with ⟨equal, found, pivotFound, -⟩
  refine ⟨equal, found, fun id => ?_⟩
  rw [otherProper.mem_class_iff found pivotFound, proper.mem_class_iff member pivotInside]
  by_cases first : id = pivot
  · exact iff_of_true (.inl first) (.inl first)
  · exact or_congr_right (same pivot id (Ne.symm first)).symm

end Proper

/-! ## One batch -/

theorem ofLiteral_of_mem_refine (led : ∀ members ∈ partition.classes, Led members)
    {members : List Literal} (member : members ∈ (partition.refine words).classes)
    {pivot literal : Literal} (first : pivot ∈ members.head?) (inside : literal ∈ members) :
    words.ofLiteral literal = words.ofNode pivot.node := by
  have ofKept : ∀ source : List Literal, Led source → pivot ∈ (kept words source).head? →
      literal ∈ kept words source → words.ofLiteral literal = words.ofNode pivot.node := by
    intro source sourceLed sourceFirst sourceInside
    cases source with
    | nil => cases sourceFirst
    | cons head others =>
        cases sourceFirst
        exact ((mem_kept_iff sourceLed).mp sourceInside).2
  have ofGroup : ∀ ids : List Nat, members ∈ group words ids →
      words.ofLiteral literal = words.ofNode pivot.node := by
    intro ids
    induction ids using group_induction words with
    | empty =>
        intro grouped
        rw [group] at grouped
        cases grouped
    | round head others induction =>
        intro grouped
        rw [group_cons] at grouped
        rcases List.mem_cons.mp grouped with rfl | later
        · exact ofKept _ (led_plain _) first inside
        · exact induction later
  rcases List.mem_append.mp (mem_ofClasses_iff.mp member).1 with stayed | grouped
  · rcases List.mem_map.mp stayed with ⟨source, found, rfl⟩
    exact ofKept source (led source found) first inside
  · rcases List.mem_flatMap.mp grouped with ⟨source, -, found⟩
    exact ofGroup _ found

/-- A refinement separates exactly the nodes that its batch tells apart. -/
theorem joins_refine_iff (led : ∀ members ∈ partition.classes, Led members) {first second : Nat}
    (different : first ≠ second) :
    (partition.refine words).Joins first second ↔
      partition.Joins first second ∧ words.Alike first second := by
  constructor
  · rintro ⟨members, member, firstInside, secondInside⟩
    constructor
    · rcases source_of_mem_refine led member with ⟨-, source, found, fewer⟩
      exact ⟨source, found, fewer.subset firstInside, fewer.subset secondInside⟩
    · rcases List.mem_map.mp firstInside with ⟨left, leftInside, rfl⟩
      rcases List.mem_map.mp secondInside with ⟨right, rightInside, rfl⟩
      cases members with
      | nil => cases leftInside
      | cons pivot others =>
          have same := (ofLiteral_of_mem_refine led member rfl leftInside).trans
            (ofLiteral_of_mem_refine led member rfl rightInside).symm
          exact Words.alike_of_ofLiteral_eq same
  · rintro ⟨joins, alike⟩
    rcases alike.exists_ofLiteral_eq with ⟨flip, same⟩
    have equates : (partition.refine words).Equates (.plain first) ⟨second, flip⟩ :=
      equates_refine led joins different same
    exact equates.joins

/-! ## All batches -/

def Alike (batches : List Words) (first second : Nat) : Prop :=
  ∀ words ∈ batches, words.Alike first second

instance (batches : List Words) (first second : Nat) : Decidable (Alike batches first second) :=
  inferInstanceAs (Decidable (∀ words ∈ batches, words.Alike first second))

theorem alike_append_singleton_iff {earlier : List Words} {first second : Nat} :
    Alike (earlier ++ [words]) first second ↔
      Alike earlier first second ∧ words.Alike first second := by
  simp only [Alike, List.mem_append, List.mem_singleton, or_imp, forall_and, forall_eq]

theorem joins_refineAll_iff (constant : graph.isGate 0 = false) (batches : List Words)
    {first second : Nat} (firstCandidate : graph.Candidate first)
    (secondCandidate : graph.Candidate second) (different : first ≠ second) :
    ((initial graph).refineAll batches).Joins first second ↔ Alike batches first second := by
  induction batches using List.reverseRecOn with
  | nil =>
      have joins := joins_initial firstCandidate secondCandidate different
      exact iff_of_true joins fun _ member => nomatch member
  | append_singleton earlier words induction =>
      have proper := (proper_initial constant).refineAll earlier
      rw [refineAll_append_singleton, joins_refine_iff proper.led different, induction,
        alike_append_singleton_iff]

structure SplitBy (partition : Partition) (graph : Graph) (batches : List Words) : Prop where
  nodup : partition.nodes.Nodup
  candidates : ∀ id ∈ partition.nodes, graph.Candidate id
  /-- Candidates are together as long as no batch tells them apart. -/
  joins_iff : ∀ first second, graph.Candidate first → graph.Candidate second → first ≠ second →
    (partition.Joins first second ↔ Alike batches first second)
  /-- A candidate that is like no other one is in no class. -/
  unclassed_iff : ∀ id, graph.Candidate id →
    (id ∉ partition.nodes ↔ ∀ other, graph.Candidate other → other ≠ id → ¬Alike batches id other)
  /-- The inverters of a class are those of the last batch. -/
  oriented : ∀ last ∈ batches.getLast?, ∀ members ∈ partition.classes, ∀ pivot ∈ members.head?,
    ∀ member ∈ members, last.ofNode member.node ^^^ member.mask = last.ofNode pivot.node

theorem splitBy_refineAll (constant : graph.isGate 0 = false) (batches : List Words) :
    ((initial graph).refineAll batches).SplitBy graph batches := by
  have proper := (proper_initial constant).refineAll batches
  refine ⟨proper.nodup, proper.candidates, ?_, ?_, ?_⟩
  · intro first second firstCandidate secondCandidate different
    exact joins_refineAll_iff constant batches firstCandidate secondCandidate different
  · intro id candidate
    constructor
    · intro unclassed other otherCandidate different alike
      have joins := (joins_refineAll_iff constant batches candidate otherCandidate
        (Ne.symm different)).mpr alike
      rcases joins with ⟨members, member, inside, -⟩
      exact unclassed (mem_nodes.mpr ⟨members, member, inside⟩)
    · intro alone classed
      rcases mem_nodes.mp classed with ⟨members, member, inside⟩
      rcases proper.exists_other member id with ⟨other, otherInside, different⟩
      have otherCandidate := proper.candidates other (mem_nodes.mpr ⟨members, member, otherInside⟩)
      apply alone other otherCandidate different
      exact (joins_refineAll_iff constant batches candidate otherCandidate
        (Ne.symm different)).mp ⟨members, member, inside, otherInside⟩
  · intro last isLast members member pivot first literal inside
    rcases List.getLast?_eq_some_iff.mp isLast with ⟨earlier, rfl⟩
    rw [refineAll_append_singleton] at member
    exact ofLiteral_of_mem_refine ((proper_initial constant).refineAll earlier).led member first
      inside

theorem Alike.of_perm {batches others : List Words} (perm : others.Perm batches)
    {first second : Nat} (alike : Alike batches first second) : Alike others first second :=
  fun words member => alike words (perm.subset member)

theorem exists_same_class_of_perm (constant : graph.isGate 0 = false) {batches others : List Words}
    (perm : others.Perm batches) {members : List Literal}
    (member : members ∈ ((initial graph).refineAll others).classes) :
    ∃ equal ∈ ((initial graph).refineAll batches).classes,
      ∀ id, id ∈ equal.map Literal.node ↔ id ∈ members.map Literal.node := by
  have proper := (proper_initial constant).refineAll batches
  have otherProper := (proper_initial constant).refineAll others
  apply otherProper.exists_same_class proper _ member
  intro first second different
  constructor
  · intro joins
    have candidates := otherProper.candidate_of_joins joins
    rw [joins_refineAll_iff constant _ candidates.1 candidates.2 different] at joins ⊢
    exact joins.of_perm perm.symm
  · intro joins
    have candidates := proper.candidate_of_joins joins
    rw [joins_refineAll_iff constant _ candidates.1 candidates.2 different] at joins ⊢
    exact joins.of_perm perm

/-- The signatures of the candidates, the words that all batches gave them, make the classes,
whatever the order of the batches. -/
theorem classes_of_signatures (constant : graph.isGate 0 = false) (batches : List Words) :
    ((initial graph).refineAll batches).SplitBy graph batches ∧
      ∀ others, others.Perm batches → ∀ members ∈ ((initial graph).refineAll others).classes,
        ∃ equal ∈ ((initial graph).refineAll batches).classes,
          ∀ id, id ∈ equal.map Literal.node ↔ id ∈ members.map Literal.node :=
  ⟨splitBy_refineAll constant batches,
    fun _ perm _ member => exists_same_class_of_perm constant perm member⟩

/-- Two batches leave the two gates that read the same inputs together, and the constant apart
from them. The second batch has no words for the last nodes. -/
theorem classes_of_signatures_twins :
    Graph.twins.isGate 0 = false ∧
      ((initial Graph.twins).refineAll [#[0, 3, 5, 1, 1, 0, 0, 1], #[0, 1, 3, 1, 1]]).Joins 3 4 ∧
        ¬((initial Graph.twins).refineAll [#[0, 3, 5, 1, 1, 0, 0, 1], #[0, 1, 3, 1, 1]]).Joins 0 3 := by
  have constant : Graph.twins.isGate 0 = false := rfl
  have splits := (classes_of_signatures constant
    [#[0, 3, 5, 1, 1, 0, 0, 1], #[0, 1, 3, 1, 1]]).1
  refine ⟨constant, ?_, ?_⟩
  · exact (splits.joins_iff 3 4 (.inr ⟨rfl, rfl⟩) (.inr ⟨rfl, rfl⟩) (by decide)).mpr (by decide)
  · rw [splits.joins_iff 0 3 (.inl rfl) (.inr ⟨rfl, rfl⟩) (by decide)]
    decide

end Partition

end AndInverter
