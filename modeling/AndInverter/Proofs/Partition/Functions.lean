import AndInverter.Proofs.Partition.Signatures
import Mathlib.Data.Set.Subsingleton

namespace AndInverter

/-! Partitions by functions. Where the words of one batch show the candidates under every
assignment, two literals have the same word exactly when they carry the same signal. So the
classes that this batch makes are those of the functions up to inversion, and the inverters
say which functions are opposite. -/

namespace Graph

variable {graph : Graph} {first second : Nat}

def OppositeFunction (graph : Graph) (first second : Nat) : Prop :=
  ∀ assignment value, graph.Takes assignment first value ↔ graph.Takes assignment second !value

def Akin (graph : Graph) (first second : Nat) : Prop :=
  graph.SameFunction first graph second ∨ graph.OppositeFunction first second

/-- The constant, and the gates that the outputs see. -/
def Visible (graph : Graph) (id : Nat) : Prop :=
  id = 0 ∨ graph.isGate id = true ∧ graph.Observed id

theorem sameSignal_plain_iff :
    graph.SameSignal (.plain first) (.plain second) ↔ graph.SameFunction first graph second := by
  simp only [SameSignal, carries_plain_iff, SameFunction]

theorem sameSignal_not_iff :
    graph.SameSignal (.plain first) (Literal.plain second).not ↔
      graph.OppositeFunction first second := by
  have carries : ∀ assignment value,
      graph.Carries assignment (Literal.plain second).not value ↔
        graph.Takes assignment second !value := by
    intro assignment value
    cases value <;> rfl
  simp only [SameSignal, carries_plain_iff, carries, OppositeFunction]

theorem akin_iff :
    graph.Akin first second ↔ ∃ flip, graph.SameSignal (.plain first) ⟨second, flip⟩ := by
  rw [Bool.exists_bool]
  exact or_congr sameSignal_plain_iff.symm sameSignal_not_iff.symm

theorem akin_refl (graph : Graph) (id : Nat) : graph.Akin id id :=
  .inl fun _ _ => Iff.rfl

namespace WellFormed

variable (wellFormed : graph.WellFormed)

include wellFormed

theorem candidate_sweep_iff {id : Nat} : graph.sweep.Candidate id ↔ graph.Visible id := by
  rw [Candidate, graph.frame_sweep.isGate]
  exact or_congr_right (and_congr_right wellFormed.isActive_sweep_iff)

theorem isActive_sweep_of_visible {id : Nat} (visible : graph.Visible id) :
    graph.sweep.isActive id = true :=
  wellFormed.sweep.isActive_of_candidate (wellFormed.candidate_sweep_iff.mpr visible)

theorem not_oppositeFunction_self {id : Nat} (active : graph.isActive id = true) :
    ¬graph.OppositeFunction id id := by
  intro opposite
  rcases wellFormed.exists_takes default active with ⟨value, takes⟩
  have equal := takes.unique ((opposite default value).mp takes)
  cases value <;> cases equal

theorem inverted_iff {pivot literal : Literal} (active : graph.isActive pivot.node = true)
    (plain : pivot.inverted = false) (same : graph.SameSignal pivot literal) :
    literal.inverted = true ↔ graph.OppositeFunction pivot.node literal.node := by
  rcases pivot with ⟨pivot, pivotInverted⟩
  rcases literal with ⟨id, inverted⟩
  cases plain
  cases inverted with
  | false =>
      have equal := sameSignal_plain_iff.mp same
      refine iff_of_false Bool.false_ne_true fun opposite => ?_
      apply wellFormed.not_oppositeFunction_self active
      intro assignment value
      rw [opposite, equal]
  | true => exact iff_of_true rfl (sameSignal_not_iff.mp same)

end WellFormed

end Graph

/-! ## Words for all assignments -/

namespace Words

variable {words : Words} {graph : Graph}

/-- Each assignment has a lane in which the candidates have the values that they take under
it. -/
def Exhausts (words : Words) (graph : Graph) : Prop :=
  ∀ assignment, ∃ lane < 32, ∀ id, graph.Candidate id →
    graph.Takes assignment id ((words.ofNode id).lane lane)

theorem Exhausts.sameSignal (exhausts : words.Exhausts graph) {left right : Literal}
    (leftCandidate : graph.Candidate left.node) (rightCandidate : graph.Candidate right.node)
    (same : words.ofLiteral left = words.ofLiteral right) : graph.SameSignal left right := by
  intro assignment value
  rcases exhausts assignment with ⟨lane, inside, takes⟩
  have carried : ∀ literal : Literal, graph.Candidate literal.node →
      graph.Carries assignment literal ((words.ofLiteral literal).lane lane) := by
    intro literal candidate
    rw [lane_ofLiteral words literal inside]
    exact Graph.takes_iff_carries.mp (takes literal.node candidate)
  have leftCarries := carried left leftCandidate
  have rightCarries := carried right rightCandidate
  rw [← same] at rightCarries
  constructor
  · intro carries
    rw [carries.unique leftCarries]
    exact rightCarries
  · intro carries
    rw [carries.unique rightCarries]
    exact leftCarries

theorem Exhausts.ofLiteral_eq_iff (exhausts : words.Exhausts graph.sweep)
    (shows : words.Show graph.sweep) (wellFormed : graph.WellFormed) {left right : Literal}
    (leftVisible : graph.Visible left.node) (rightVisible : graph.Visible right.node) :
    words.ofLiteral left = words.ofLiteral right ↔ graph.SameSignal left right := by
  have leftCandidate := wellFormed.candidate_sweep_iff.mpr leftVisible
  have rightCandidate := wellFormed.candidate_sweep_iff.mpr rightVisible
  rw [wellFormed.preserves_sweep.sameSignal_iff
    (wellFormed.isActive_sweep_of_visible leftVisible)
    (wellFormed.isActive_sweep_of_visible rightVisible)]
  exact ⟨exhausts.sameSignal leftCandidate rightCandidate,
    shows.ofLiteral_eq leftCandidate rightCandidate⟩

theorem Exhausts.alike_iff (exhausts : words.Exhausts graph.sweep)
    (shows : words.Show graph.sweep) (wellFormed : graph.WellFormed) {first second : Nat}
    (firstVisible : graph.Visible first) (secondVisible : graph.Visible second) :
    words.Alike first second ↔ graph.Akin first second := by
  have same_iff : ∀ flip, words.ofLiteral (.plain first) = words.ofLiteral ⟨second, flip⟩ ↔
      graph.SameSignal (.plain first) ⟨second, flip⟩ :=
    fun _ => exhausts.ofLiteral_eq_iff shows wellFormed firstVisible secondVisible
  rw [Graph.akin_iff]
  constructor
  · intro alike
    rcases alike.exists_ofLiteral_eq with ⟨flip, same⟩
    exact ⟨flip, (same_iff flip).mp same⟩
  · rintro ⟨flip, same⟩
    exact alike_of_ofLiteral_eq ((same_iff flip).mpr same)

end Words

/-! ## Classes -/

namespace Partition

variable {partition : Partition} {graph : Graph}

namespace Proper

variable (proper : partition.Proper graph) {eligible : Nat → Prop} {related : Nat → Nat → Prop}
  (eligible_iff : ∀ id, graph.Candidate id ↔ eligible id) (reflexive : ∀ id, related id id)
  (joins_iff : ∀ first second, eligible first → eligible second → first ≠ second →
    (partition.Joins first second ↔ related first second))

include proper eligible_iff

theorem eligible_of_mem {members : List Literal} (member : members ∈ partition.classes) {id : Nat}
    (inside : id ∈ members.map Literal.node) : eligible id :=
  (eligible_iff id).mp (proper.candidates id (mem_nodes.mpr ⟨members, member, inside⟩))

include reflexive joins_iff

theorem class_eq {members : List Literal} (member : members ∈ partition.classes) {id : Nat}
    (inside : id ∈ members.map Literal.node) :
    {other | other ∈ members.map Literal.node} = {other | eligible other ∧ related id other} := by
  have idEligible := proper.eligible_of_mem eligible_iff member inside
  ext other
  rw [Set.mem_ofPred_eq, Set.mem_ofPred_eq, proper.mem_class_iff member inside]
  by_cases same : other = id
  · subst same
    exact iff_of_true (.inl rfl) ⟨idEligible, reflexive other⟩
  · rw [or_iff_right same]
    constructor
    · intro joins
      have otherEligible := (eligible_iff other).mp (proper.candidate_of_joins joins).2
      exact ⟨otherEligible, (joins_iff id other idEligible otherEligible (Ne.symm same)).mp joins⟩
    · rintro ⟨otherEligible, akin⟩
      exact (joins_iff id other idEligible otherEligible (Ne.symm same)).mpr akin

/-- Where what is together is what is related, the classes are the sets of at least two nodes
that are all the nodes related to one of them. -/
theorem class_iff (nodes : Set Nat) :
    (∃ members ∈ partition.classes, nodes = {id | id ∈ members.map Literal.node}) ↔
      nodes.Nontrivial ∧
        ∃ id, eligible id ∧ nodes = {other | eligible other ∧ related id other} := by
  constructor
  · rintro ⟨members, member, rfl⟩
    rcases proper.exists_other member 0 with ⟨id, inside, -⟩
    rcases proper.exists_other member id with ⟨other, otherInside, different⟩
    exact ⟨⟨id, inside, other, otherInside, Ne.symm different⟩, id,
      proper.eligible_of_mem eligible_iff member inside,
      proper.class_eq eligible_iff reflexive joins_iff member inside⟩
  · rintro ⟨nontrivial, id, idEligible, rfl⟩
    rcases nontrivial.exists_ne id with ⟨other, ⟨otherEligible, akin⟩, different⟩
    rcases (joins_iff id other idEligible otherEligible (Ne.symm different)).mpr akin with
      ⟨members, member, inside, -⟩
    exact ⟨members, member,
      (proper.class_eq eligible_iff reflexive joins_iff member inside).symm⟩

end Proper

def Uniform (partition : Partition) (graph : Graph) : Prop :=
  ∀ members ∈ partition.classes, ∀ left ∈ members, ∀ right ∈ members, graph.SameSignal left right

theorem Uniform.sorted (uniform : partition.Uniform graph) : partition.sorted.Uniform graph :=
  fun members member => uniform members (mem_sorted_iff.mp member)

theorem Proper.uniform_refine (proper : partition.Proper graph) {words : Words}
    (exhausts : words.Exhausts graph) : (partition.refine words).Uniform graph := by
  intro members member left leftInside right rightInside
  have candidate : ∀ literal ∈ members, graph.Candidate literal.node := by
    intro literal inside
    exact (proper.refine words).candidates literal.node
      (mem_nodes.mpr ⟨members, member, List.mem_map_of_mem inside⟩)
  cases members with
  | nil => cases leftInside
  | cons pivot others =>
      have same := (ofLiteral_of_mem_refine proper.led member rfl leftInside).trans
        (ofLiteral_of_mem_refine proper.led member rfl rightInside).symm
      exact exhausts.sameSignal (candidate left leftInside) (candidate right rightInside) same

/-- The classes of the functions of a graph. The classes are the sets of at least two nodes
that consist of all visible nodes akin to one of them, each one listed once; and a member is
inverted exactly when it computes the opposite of its pivot. -/
structure ByFunction (partition : Partition) (graph : Graph) : Prop where
  nodup : partition.nodes.Nodup
  class_iff : ∀ nodes : Set Nat,
    (∃ members ∈ partition.classes, nodes = {id | id ∈ members.map Literal.node}) ↔
      nodes.Nontrivial ∧
        ∃ id, graph.Visible id ∧ nodes = {other | graph.Visible other ∧ graph.Akin id other}
  inverted_iff : ∀ members ∈ partition.classes, ∀ pivot ∈ members.head?, ∀ member ∈ members,
    (member.inverted = true ↔ graph.OppositeFunction pivot.node member.node)

theorem byFunction_refine (wellFormed : graph.WellFormed) {words : Words}
    (shows : words.Show graph.sweep) (exhausts : words.Exhausts graph.sweep) :
    ((initial graph.sweep).refine words).ByFunction graph := by
  have swept := wellFormed.sweep
  have proper : (initial graph.sweep).Proper graph.sweep := proper_initial swept.isGate_constant
  have refined := proper.refine words
  have eligible : ∀ id, graph.sweep.Candidate id ↔ graph.Visible id :=
    fun _ => wellFormed.candidate_sweep_iff
  refine ⟨refined.nodup, refined.class_iff eligible graph.akin_refl ?_, ?_⟩
  · intro first second firstVisible secondVisible different
    have together := joins_initial ((eligible first).mpr firstVisible)
      ((eligible second).mpr secondVisible) different
    rw [joins_refine_iff proper.led different,
      exhausts.alike_iff shows wellFormed firstVisible secondVisible]
    exact and_iff_right together
  · intro members member pivot first literal inside
    have pivotInside := List.mem_of_mem_head? first
    have plain := refined.led members member pivot first
    have active : ∀ other ∈ members, graph.sweep.isActive other.node = true := by
      intro other otherInside
      exact swept.isActive_of_candidate (refined.candidates other.node
        (mem_nodes.mpr ⟨members, member, List.mem_map_of_mem otherInside⟩))
    have same := proper.uniform_refine exhausts members member pivot pivotInside literal inside
    rw [← wellFormed.preserves_sweep.sameSignal_iff (active pivot pivotInside)
      (active literal inside)] at same
    exact wellFormed.inverted_iff (graph.frame_sweep.isActive (active pivot pivotInside)) plain same

theorem ByFunction.sorted (byFunction : partition.ByFunction graph) :
    partition.sorted.ByFunction graph where
  nodup := by
    have perm : partition.sorted.nodes.Perm partition.nodes :=
      (List.mergeSort_perm partition.classes classLE).flatMap_right _
    exact perm.nodup_iff.mpr byFunction.nodup
  class_iff nodes := by
    rw [← byFunction.class_iff nodes]
    simp only [mem_sorted_iff]
  inverted_iff members member := byFunction.inverted_iff members (mem_sorted_iff.mp member)

end Partition

end AndInverter
