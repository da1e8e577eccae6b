namespace AndInverter

/-! The room that is left below a bound: how many ids are not yet taken. It is
what a traversal uses up, so it is why one ends. -/

def room (bound : Nat) (taken : Nat → Bool) : Nat :=
  (List.range bound).countP fun id => !taken id

theorem room_le (bound : Nat) (taken : Nat → Bool) : room bound taken ≤ bound := by
  have few := List.countP_le_length (p := fun id => !taken id) (l := List.range bound)
  rwa [List.length_range] at few

theorem room_le_of_imp {bound : Nat} {before after : Nat → Bool}
    (grows : ∀ id, before id = true → after id = true) :
    room bound after ≤ room bound before := by
  apply List.countP_mono_left
  intro id _ free
  cases taken : before id with
  | false => rfl
  | true => simp [grows id taken] at free

theorem room_lt {bound id : Nat} {before after : Nat → Bool} (inside : id < bound)
    (grows : ∀ other, before other = true → after other = true)
    (free : before id = false) (taken : after id = true) :
    room bound after < room bound before := by
  induction bound with
  | zero => omega
  | succ bound induction =>
      simp only [room, List.range_succ, List.countP_append, List.countP_singleton]
      have kept : room bound after ≤ room bound before := room_le_of_imp grows
      unfold room at kept
      by_cases last : id = bound
      · subst last
        simp only [free, taken]
        simp only [Bool.not_false, Bool.not_true, if_true, Bool.false_eq_true, if_false]
        omega
      · have less := induction (by omega)
        unfold room at less
        have last_le : (if (!after bound) = true then 1 else 0)
            ≤ (if (!before bound) = true then 1 else 0) := by
          cases was : before bound with
          | true => simp [grows bound was]
          | false => cases after bound <;> decide
        omega

end AndInverter
