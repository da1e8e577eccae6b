import AndInverter.Partition
import AndInverter.Proofs.Simulation.Words
import Mathlib.Data.List.Perm.Subperm

namespace AndInverter

/-! Refinement of candidate classes. What two literals with the same word make of a class
that holds their nodes does not depend on how the inverters stood before: afterwards one
class holds both literals as they are, or both inverted. No class gets a node that the class
it comes from did not have. -/

namespace Partition

variable {words : Words}

/-! ## One member -/

theorem keep?_eq_some_iff {pivot : Word} {member kept : Literal} :
    keep? words pivot member = some kept ↔
      kept.node = member.node ∧ words.ofLiteral kept = pivot := by
  rw [keep?]
  constructor
  · intro stays
    split at stays
    · rename_i same
      cases stays
      exact ⟨rfl, same⟩
    · split at stays
      · rename_i opposite
        cases stays
        exact ⟨rfl, (words.ofLiteral_not member).trans opposite⟩
      · cases stays
  · intro ⟨same, word⟩
    rcases Literal.eq_or_eq_not same with rfl | rfl
    · rw [if_pos word]
    · rw [words.ofLiteral_not] at word
      have different : words.ofLiteral member ≠ pivot := by
        intro equal
        exact Word.not_ne _ (word.trans equal.symm)
      rw [if_neg different, if_pos word]

theorem keep?_isNone_iff {pivot : Word} {member : Literal} :
    (keep? words pivot member).isNone = true ↔
      ∀ literal : Literal, literal.node = member.node → words.ofLiteral literal ≠ pivot := by
  rw [Option.isNone_iff_eq_none, Option.eq_none_iff_forall_ne_some]
  constructor
  · intro gone literal same word
    exact gone literal (keep?_eq_some_iff.mpr ⟨same, word⟩)
  · intro unlike literal stays
    have kept := keep?_eq_some_iff.mp stays
    exact unlike literal kept.1 kept.2

/-! ## One class -/

def Led (members : List Literal) : Prop :=
  ∀ pivot ∈ members.head?, pivot.inverted = false

theorem mem_kept_iff {pivot literal : Literal} {others : List Literal}
    (led : Led (pivot :: others)) :
    literal ∈ kept words (pivot :: others) ↔
      literal.node ∈ (pivot :: others).map Literal.node ∧
        words.ofLiteral literal = words.ofNode pivot.node := by
  have leader := words.ofLiteral_of_not_inverted (led pivot rfl)
  simp only [kept, List.mem_cons, List.mem_filterMap, keep?_eq_some_iff, List.map_cons,
    List.mem_map]
  constructor
  · rintro (rfl | ⟨member, inside, same, word⟩)
    · exact ⟨.inl rfl, leader⟩
    · exact ⟨.inr ⟨member, inside, same.symm⟩, word⟩
  · rintro ⟨same | ⟨member, inside, same⟩, word⟩
    · rcases Literal.eq_or_eq_not same with equal | opposite
      · exact .inl equal
      · rw [opposite, words.ofLiteral_not, leader] at word
        exact absurd word (Word.not_ne _)
    · exact .inr ⟨member, inside, same.symm, word⟩

theorem mem_evicted_iff {pivot : Literal} {others : List Literal} {id : Nat} :
    id ∈ evicted words (pivot :: others) ↔ id ∈ others.map Literal.node ∧
      ∀ literal : Literal, literal.node = id →
        words.ofLiteral literal ≠ words.ofNode pivot.node := by
  simp only [evicted, List.mem_map, List.mem_filter, keep?_isNone_iff]
  constructor
  · rintro ⟨member, ⟨inside, unlike⟩, rfl⟩
    exact ⟨⟨member, inside, rfl⟩, unlike⟩
  · rintro ⟨⟨member, inside, rfl⟩, unlike⟩
    exact ⟨member, ⟨inside, unlike⟩, rfl⟩

theorem kept_or_evicted {members : List Literal} (led : Led members) {left right : Literal}
    (same : words.ofLiteral left = words.ofLiteral right)
    (leftMember : left.node ∈ members.map Literal.node)
    (rightMember : right.node ∈ members.map Literal.node) :
    (∃ flip, left.xor flip ∈ kept words members ∧ right.xor flip ∈ kept words members) ∨
      left.node ∈ evicted words members ∧ right.node ∈ evicted words members := by
  cases members with
  | nil => cases leftMember
  | cons pivot others =>
      have leader := words.ofLiteral_of_not_inverted (led pivot rfl)
      by_cases stays : ∃ flip, words.ofLiteral (left.xor flip) = words.ofNode pivot.node
      · rcases stays with ⟨flip, word⟩
        have other : words.ofLiteral (right.xor flip) = words.ofNode pivot.node := by
          rw [words.ofLiteral_xor, ← same, ← words.ofLiteral_xor, word]
        exact .inl ⟨flip, (mem_kept_iff led).mpr ⟨leftMember, word⟩,
          (mem_kept_iff led).mpr ⟨rightMember, other⟩⟩
      · -- A literal of either node is the one in question or its opposite.
        have leaves : ∀ asked : Literal, words.ofLiteral asked = words.ofLiteral left →
            asked.node ∈ (pivot :: others).map Literal.node →
              asked.node ∈ evicted words (pivot :: others) := by
          intro asked word member
          have unlike : ∀ literal : Literal, literal.node = asked.node →
              words.ofLiteral literal ≠ words.ofNode pivot.node := by
            intro literal node equal
            apply stays
            rcases Literal.eq_or_eq_not node with rfl | rfl
            · exact ⟨false, by rw [Literal.xor_false, ← word, equal]⟩
            · exact ⟨true, by rw [Literal.xor_true, words.ofLiteral_not, ← word,
                ← words.ofLiteral_not, equal]⟩
          rcases List.mem_cons.mp member with first | later
          · exact absurd leader (unlike pivot first.symm)
          · exact mem_evicted_iff.mpr ⟨later, unlike⟩
        exact .inr ⟨leaves left rfl leftMember, leaves right same.symm rightMember⟩

theorem led_kept {members : List Literal} (led : Led members) : Led (kept words members) := by
  cases members with
  | nil => exact led
  | cons pivot others => exact led

theorem nodes_kept_sublist (words : Words) (members : List Literal) :
    ((kept words members).map Literal.node).Sublist (members.map Literal.node) := by
  cases members with
  | nil => exact .slnil
  | cons pivot others =>
      simp only [kept, List.map_cons]
      apply List.Sublist.cons_cons
      induction others with
      | nil => exact .slnil
      | cons member others induction =>
          rw [List.filterMap_cons]
          cases stays : keep? words (words.ofNode pivot.node) member with
          | none => exact .cons member.node induction
          | some literal =>
              rw [List.map_cons, List.map_cons, (keep?_eq_some_iff.mp stays).1]
              exact induction.cons_cons member.node

theorem evicted_cons_sublist (words : Words) (pivot : Literal) (others : List Literal) :
    (evicted words (pivot :: others)).Sublist (others.map Literal.node) :=
  List.filter_sublist.map Literal.node

theorem evicted_sublist (words : Words) (members : List Literal) :
    (evicted words members).Sublist (members.map Literal.node) := by
  cases members with
  | nil => exact .slnil
  | cons pivot others => exact (evicted_cons_sublist words pivot others).cons pivot.node

/-! ## New classes -/

/-- The nodes that go become members of new classes as if all of them were one class, led
by the first. -/
theorem group_cons (words : Words) (pivot : Nat) (others : List Nat) :
    group words (pivot :: others) =
      kept words ((pivot :: others).map Literal.plain) ::
        group words (evicted words ((pivot :: others).map Literal.plain)) := by
  have asMembers : ∀ id, join? words (words.ofNode pivot) id =
      keep? words (words.ofNode pivot) (.plain id) := by
    intro id
    rw [join?, keep?, words.ofLiteral_of_not_inverted rfl]
    rfl
  have joined : join? words (words.ofNode pivot) =
      keep? words (words.ofNode pivot) ∘ Literal.plain := funext asMembers
  rw [group, joined]
  simp only [kept, evicted, List.map_cons, List.filterMap_map, List.filter_map, List.map_map]
  have nodes : Literal.node ∘ Literal.plain = id := rfl
  rw [nodes, List.map_id]
  rfl

theorem led_plain (ids : List Nat) : Led (ids.map Literal.plain) := by
  intro pivot first
  rw [List.head?_map] at first
  rcases Option.map_eq_some_iff.mp first with ⟨id, -, rfl⟩
  rfl

theorem nodes_map_plain (ids : List Nat) : (ids.map Literal.plain).map Literal.node = ids := by
  rw [List.map_map]
  exact List.map_id ids

theorem group_induction (words : Words) {holds : List Nat → Prop} (empty : holds [])
    (round : ∀ pivot others, holds (evicted words ((pivot :: others).map Literal.plain)) →
      holds (pivot :: others)) (ids : List Nat) : holds ids := by
  generalize bound : ids.length = length
  induction length using Nat.strongRecOn generalizing ids with
  | _ length induction =>
      cases ids with
      | nil => exact empty
      | cons pivot others =>
          have fewer := evicted_cons_sublist words (.plain pivot)
            (others.map Literal.plain)
          rw [nodes_map_plain] at fewer
          have shorter := Nat.lt_succ_of_le fewer.length_le
          exact round pivot others (induction _ (bound ▸ shorter) _ rfl)

theorem exists_mem_group {left right : Literal}
    (same : words.ofLiteral left = words.ofLiteral right) {ids : List Nat}
    (leftMember : left.node ∈ ids) (rightMember : right.node ∈ ids) :
    ∃ members ∈ group words ids, ∃ flip, left.xor flip ∈ members ∧ right.xor flip ∈ members := by
  induction ids using group_induction words with
  | empty => cases leftMember
  | round pivot others induction =>
      rw [← nodes_map_plain (pivot :: others)] at leftMember rightMember
      rw [group_cons]
      rcases kept_or_evicted (led_plain _) same leftMember rightMember with
        together | ⟨leftLeaves, rightLeaves⟩
      · exact ⟨_, List.mem_cons_self, together⟩
      · rcases induction leftLeaves rightLeaves with ⟨members, member, together⟩
        exact ⟨members, .tail _ member, together⟩

theorem led_of_mem_group {ids : List Nat} {members : List Literal}
    (member : members ∈ group words ids) : Led members := by
  induction ids using group_induction words with
  | empty =>
      rw [group] at member
      cases member
  | round pivot others induction =>
      rw [group_cons] at member
      rcases List.mem_cons.mp member with rfl | later
      · exact led_kept (led_plain _)
      · exact induction later

theorem nodes_sublist_of_mem_group {ids : List Nat} {members : List Literal}
    (member : members ∈ group words ids) : (members.map Literal.node).Sublist ids := by
  induction ids using group_induction words with
  | empty =>
      rw [group] at member
      cases member
  | round pivot others induction =>
      have stay := nodes_kept_sublist words ((pivot :: others).map Literal.plain)
      have leave := evicted_sublist words ((pivot :: others).map Literal.plain)
      rw [nodes_map_plain] at stay leave
      rw [group_cons] at member
      rcases List.mem_cons.mp member with rfl | later
      · exact stay
      · exact (induction later).trans leave

/-! ## All classes -/

theorem mem_ofClasses_iff {classes : List (List Literal)} {members : List Literal} :
    members ∈ (ofClasses classes).classes ↔ members ∈ classes ∧ 2 ≤ members.length := by
  simp [ofClasses]

theorem two_le_length {members : List Literal} {left right : Literal}
    (leftMember : left ∈ members) (rightMember : right ∈ members)
    (different : left.node ≠ right.node) : 2 ≤ members.length := by
  have pair : [left, right].Nodup := by
    rw [List.nodup_cons, List.mem_singleton]
    exact ⟨fun equal => different (equal ▸ rfl), List.nodup_cons.mpr ⟨List.not_mem_nil, .nil⟩⟩
  have inside : [left, right] ⊆ members := by
    intro literal member
    rcases List.mem_cons.mp member with rfl | last
    · exact leftMember
    · exact List.mem_singleton.mp last ▸ rightMember
  exact (pair.subperm inside).length_le

def Joins (partition : Partition) (first second : Nat) : Prop :=
  ∃ members ∈ partition.classes,
    first ∈ members.map Literal.node ∧ second ∈ members.map Literal.node

def Equates (partition : Partition) (left right : Literal) : Prop :=
  ∃ members ∈ partition.classes, ∃ flip, left.xor flip ∈ members ∧ right.xor flip ∈ members

theorem Equates.joins {partition : Partition} {left right : Literal}
    (equates : partition.Equates left right) : partition.Joins left.node right.node := by
  rcases equates with ⟨members, member, flip, leftMember, rightMember⟩
  exact ⟨members, member, List.mem_map.mpr ⟨_, leftMember, rfl⟩,
    List.mem_map.mpr ⟨_, rightMember, rfl⟩⟩

variable {partition : Partition} (led : ∀ members ∈ partition.classes, Led members)

include led

/-- A refinement does not tell literals with the same word apart, and it sets their
inverters right. -/
theorem equates_refine {left right : Literal} (joins : partition.Joins left.node right.node)
    (different : left.node ≠ right.node) (same : words.ofLiteral left = words.ofLiteral right) :
    (partition.refine words).Equates left right := by
  rcases joins with ⟨source, member, leftMember, rightMember⟩
  have together : ∃ members ∈ partition.classes.map (kept words) ++
      partition.classes.flatMap (fun members => group words (evicted words members)),
      ∃ flip, left.xor flip ∈ members ∧ right.xor flip ∈ members := by
    rcases kept_or_evicted (led source member) same leftMember rightMember with
      stay | ⟨leftLeaves, rightLeaves⟩
    · exact ⟨_, List.mem_append_left _ (List.mem_map_of_mem member), stay⟩
    · rcases exists_mem_group same leftLeaves rightLeaves with ⟨members, grouped, meet⟩
      exact ⟨members, List.mem_append_right _ (List.mem_flatMap.mpr ⟨source, member, grouped⟩),
        meet⟩
  rcases together with ⟨members, found, flip, leftStays, rightStays⟩
  have large := two_le_length leftStays rightStays different
  exact ⟨members, mem_ofClasses_iff.mpr ⟨found, large⟩, flip, leftStays, rightStays⟩

theorem source_of_mem_refine {members : List Literal}
    (member : members ∈ (partition.refine words).classes) :
    Led members ∧ ∃ source ∈ partition.classes,
      (members.map Literal.node).Sublist (source.map Literal.node) := by
  rcases List.mem_append.mp (mem_ofClasses_iff.mp member).1 with stayed | left
  · rcases List.mem_map.mp stayed with ⟨source, found, rfl⟩
    exact ⟨led_kept (led source found), source, found, nodes_kept_sublist words source⟩
  · rcases List.mem_flatMap.mp left with ⟨source, found, grouped⟩
    exact ⟨led_of_mem_group grouped, source, found,
      (nodes_sublist_of_mem_group grouped).trans (evicted_sublist words source)⟩

end Partition

end AndInverter
