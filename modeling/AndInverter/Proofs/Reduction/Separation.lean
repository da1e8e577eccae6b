import AndInverter.Proofs.Partition.Coverage
import AndInverter.Proofs.Reduction.Merging

namespace AndInverter.Graph

/-! What a complete reduction aims at: no two candidates carry the same signal any more.
Where two do, the merge of the pair succeeds and takes exactly one of them away; what is
separated stays so while functions are preserved, and so does what agrees. -/

variable {graph before after : Graph}

/-! ## Candidates -/

def Mergeable (graph : Graph) (id : Nat) : Prop :=
  id = 0 ∨ graph.isGate id = true

theorem Candidate.mergeable {id : Nat} (candidate : graph.Candidate id) : graph.Mergeable id :=
  candidate.imp_right And.left

theorem Mergeable.candidate {id : Nat} (mergeable : graph.Mergeable id)
    (active : graph.isActive id = true) : graph.Candidate id :=
  mergeable.imp_right fun isGate => ⟨isGate, active⟩

theorem Mergeable.of_frame {id : Nat} (mergeable : before.Mergeable id)
    (frame : before.Frame after) : after.Mergeable id := by
  rwa [Mergeable, frame.isGate]

theorem Candidate.of_frame {id : Nat} (candidate : after.Candidate id)
    (frame : before.Frame after) : before.Candidate id := by
  rcases candidate with constant | ⟨isGate, active⟩
  · exact .inl constant
  · exact .inr ⟨frame.isGate id ▸ isGate, frame.isActive active⟩

/-! ## Separated literals -/

def Irredundant (graph : Graph) : Prop :=
  ∀ left right : Literal, graph.Candidate left.node → graph.Candidate right.node →
    left.node ≠ right.node → ¬graph.SameSignal left right

def Apart (graph : Graph) (pivot : Literal) (members : List Literal) : Prop :=
  ∀ member ∈ members, graph.isActive pivot.node = true → graph.isActive member.node = true →
    ¬graph.SameSignal pivot member

def Separated (graph : Graph) (members : List Literal) : Prop :=
  members.Pairwise fun left right => graph.isActive left.node = true →
    graph.isActive right.node = true → ¬graph.SameSignal left right

def Agree (graph : Graph) (members : List Literal) : Prop :=
  ∀ left ∈ members, ∀ right ∈ members, graph.isActive left.node = true →
    graph.isActive right.node = true → graph.SameSignal left right

theorem Agree.of_subset {members others : List Literal} (agree : graph.Agree members)
    (subset : others ⊆ members) : graph.Agree others :=
  fun left leftInside right rightInside =>
    agree left (subset leftInside) right (subset rightInside)

theorem apart_cons_iff {pivot member : Literal} {others : List Literal} :
    graph.Apart pivot (member :: others) ↔
      (graph.isActive pivot.node = true → graph.isActive member.node = true →
        ¬graph.SameSignal pivot member) ∧ graph.Apart pivot others :=
  List.forall_mem_cons

theorem separated_cons_iff {pivot : Literal} {members : List Literal} :
    graph.Separated (pivot :: members) ↔ graph.Apart pivot members ∧ graph.Separated members :=
  List.pairwise_cons

theorem apart_of_inactive {pivot : Literal} (inactive : graph.isActive pivot.node = false)
    (members : List Literal) : graph.Apart pivot members := by
  intro member _ active
  rw [inactive] at active
  cases active

theorem Separated.not_sameSignal {members : List Literal} (separated : graph.Separated members)
    {left right : Literal} (leftMember : left ∈ members) (rightMember : right ∈ members)
    (different : left.node ≠ right.node) (leftActive : graph.isActive left.node = true)
    (rightActive : graph.isActive right.node = true) : ¬graph.SameSignal left right := by
  induction members with
  | nil => cases leftMember
  | cons pivot members induction =>
      rcases separated_cons_iff.mp separated with ⟨apart, rest⟩
      rcases List.mem_cons.mp leftMember with rfl | leftLater
      · rcases List.mem_cons.mp rightMember with rfl | rightLater
        · exact absurd rfl different
        · exact apart right rightLater leftActive rightActive
      · rcases List.mem_cons.mp rightMember with rfl | rightLater
        · exact fun same => apart left leftLater rightActive leftActive same.symm
        · exact induction rest leftLater rightLater

namespace Preserves

variable (preserves : before.Preserves after)

include preserves

theorem apart {pivot : Literal} {members : List Literal} (apart : before.Apart pivot members) :
    after.Apart pivot members := by
  intro member inside pivotActive memberActive same
  exact apart member inside (preserves.frame.isActive pivotActive)
    (preserves.frame.isActive memberActive)
    ((preserves.sameSignal_iff pivotActive memberActive).mpr same)

theorem separated {members : List Literal} (separated : before.Separated members) :
    after.Separated members := by
  apply separated.imp
  intro left right apart leftActive rightActive same
  exact apart (preserves.frame.isActive leftActive) (preserves.frame.isActive rightActive)
    ((preserves.sameSignal_iff leftActive rightActive).mpr same)

theorem agree {members : List Literal} (agree : before.Agree members) : after.Agree members := by
  intro left leftInside right rightInside leftActive rightActive
  rw [← preserves.sameSignal_iff leftActive rightActive]
  exact agree left leftInside right rightInside (preserves.frame.isActive leftActive)
    (preserves.frame.isActive rightActive)

theorem irredundant (wellFormed : after.WellFormed) (irredundant : before.Irredundant) :
    after.Irredundant := by
  intro left right leftCandidate rightCandidate different same
  have leftActive := wellFormed.isActive_of_candidate leftCandidate
  have rightActive := wellFormed.isActive_of_candidate rightCandidate
  exact irredundant left right (leftCandidate.of_frame preserves.frame)
    (rightCandidate.of_frame preserves.frame) different
    ((preserves.sameSignal_iff leftActive rightActive).mpr same)

/-- Where the classes were exact and are separated now, nothing redundant is left. -/
theorem irredundant_of_separated (wellFormed : after.WellFormed) {partition : Partition}
    (classes : partition.Exact before)
    (separated : ∀ members ∈ partition.classes, after.Separated members) :
    after.Irredundant := by
  intro left right leftCandidate rightCandidate different same
  have leftActive := wellFormed.isActive_of_candidate leftCandidate
  have rightActive := wellFormed.isActive_of_candidate rightCandidate
  rcases classes left right (leftCandidate.of_frame preserves.frame)
    (rightCandidate.of_frame preserves.frame) different
    ((preserves.sameSignal_iff leftActive rightActive).mpr same) with
    ⟨members, member, flip, leftMember, rightMember⟩
  apply (separated members member).not_sameSignal leftMember rightMember different leftActive
    rightActive
  intro assignment value
  rw [carries_xor_iff, carries_xor_iff]
  exact same assignment _

end Preserves

/-! ## Merges of candidates -/

variable {first second : Literal}

theorem WellFormed.target_of_candidate (wellFormed : graph.WellFormed) {id : Nat}
    (candidate : graph.Candidate id) :
    ∃ node, graph.node? id = some node ∧ node.active = true ∧ node.kind.isOutput = false := by
  rcases candidate with rfl | ⟨isGate, active⟩
  · rcases wellFormed.constant with ⟨node, found, kind, active⟩
    exact ⟨node, found, active, by rw [kind]; rfl⟩
  · rcases isActive_eq_true_iff.mp active with ⟨node, found, active⟩
    rw [isGate_of_node? found] at isGate
    refine ⟨node, found, active, ?_⟩
    cases kind : node.kind <;> simp_all [Kind.isGate, Kind.isOutput]

/-- A merge of two different candidates takes one of them away and leaves the rest. -/
theorem WellFormed.mergeEqual_eq_ok (wellFormed : graph.WellFormed)
    (firstCandidate : graph.Candidate first.node) (secondCandidate : graph.Candidate second.node)
    (different : first.node ≠ second.node) :
    (graph.mergeEqual first second).result = .ok true ∧
      ∃ dropped, (dropped = first.node ∨ dropped = second.node) ∧
        ∀ id, (graph.mergeEqual first second).graph.isActive id =
          (graph.isActive id && id ≠ dropped) := by
  have oneGate : graph.isGate first.node = true ∨ graph.isGate second.node = true := by
    rcases firstCandidate with constant | ⟨isGate, -⟩
    · rw [constant] at different
      exact .inr (secondCandidate.resolve_left different.symm).1
    · exact .inl isGate
  rcases mergeEqual_replaces different oneGate (wellFormed.target_of_candidate firstCandidate)
    (wellFormed.target_of_candidate secondCandidate) with ⟨result, keep, drop, direction, success⟩
  refine ⟨result, drop.node, ?_, isActive_replace success⟩
  rcases mergeDirection_cases direction with ⟨-, rfl⟩ | ⟨-, rfl⟩
  · exact .inr rfl
  · exact .inl rfl

/-! ## Reduced graphs -/

/-- No two active gates compute the same function or opposite ones, and none computes a
constant. -/
structure Reduced (graph : Graph) : Prop where
  different : ∀ first second, graph.isGate first = true → graph.isActive first = true →
    graph.isGate second = true → graph.isActive second = true → first ≠ second →
      ¬graph.SameFunction first graph second ∧
        ¬∀ assignment value,
          graph.Takes assignment first value ↔ graph.Takes assignment second !value
  varying : ∀ gate, graph.isGate gate = true → graph.isActive gate = true →
    ∀ value, ¬∀ assignment, graph.Takes assignment gate value

theorem WellFormed.reduced (wellFormed : graph.WellFormed) (irredundant : graph.Irredundant) :
    graph.Reduced where
  different first second firstGate firstActive secondGate secondActive unequal := by
    have apart := fun left right : Bool => irredundant ⟨first, left⟩ ⟨second, right⟩
      (.inr ⟨firstGate, firstActive⟩) (.inr ⟨secondGate, secondActive⟩) unequal
    constructor
    · intro same
      exact apart false false fun assignment value => same assignment _
    · intro opposite
      apply apart false true
      intro assignment value
      change graph.Takes assignment first _ ↔ graph.Takes assignment second _
      rw [opposite]
      cases value <;> rfl
  varying gate isGate active value constant := by
    have unequal : gate ≠ 0 := by
      intro equal
      rw [equal, wellFormed.isGate_constant] at isGate
      cases isGate
    apply irredundant (.plain gate) ⟨0, value⟩ (.inr ⟨isGate, active⟩) (.inl rfl) unequal
    rcases wellFormed.constant with ⟨node, found, kind, -⟩
    apply wellFormed.sameSignal_of_imp active
    intro assignment other carries
    rw [carries_plain_iff] at carries
    rw [carries.unique (constant assignment), Carries, takes_constant_iff found kind]
    cases value <;> rfl

end AndInverter.Graph
