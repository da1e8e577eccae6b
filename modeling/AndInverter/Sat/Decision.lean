import AndInverter.Sat.Splitting

namespace AndInverter.Formula

/-! Splitting decides satisfiability: `isSatisfiable` answers yes exactly when
some assignment makes the formula hold. Making a literal true does not change the
formula for assignments in which it is true, and forgets its variable. -/

def force (literal : SatLiteral) (assignment : Nat → Bool) : Nat → Bool :=
  fun index => if index = literal.index then !literal.negated else assignment index

theorem holds_force_self (literal : SatLiteral) (assignment : Nat → Bool) :
    literal.holds (force literal assignment) = true := by
  cases flag : literal.negated <;> simp [SatLiteral.holds, force, flag]

theorem holds_force_of_ne {literal other : SatLiteral} (assignment : Nat → Bool)
    (different : other.index ≠ literal.index) :
    other.holds (force literal assignment) = other.holds assignment := by
  simp [SatLiteral.holds, force, different]

theorem eq_or_eq_not {literal other : SatLiteral} (same : other.index = literal.index) :
    other = literal ∨ other = literal.not := by
  obtain ⟨index, negated⟩ := literal
  obtain ⟨otherIndex, otherNegated⟩ := other
  cases negated <;> cases otherNegated <;> simp_all [SatLiteral.not]

private theorem clause_holds_filter {assignment : Nat → Bool} {literal : SatLiteral}
    {clause : Clause} (isTrue : literal.holds assignment = true) :
    Clause.holds assignment (clause.filter (· ≠ literal.not)) = Clause.holds assignment clause := by
  rw [Bool.eq_iff_iff]
  simp only [Clause.holds, List.any_eq_true, List.mem_filter, decide_eq_true_eq]
  constructor
  · rintro ⟨other, ⟨member, -⟩, satisfied⟩
    exact ⟨other, member, satisfied⟩
  · rintro ⟨other, member, satisfied⟩
    refine ⟨other, ⟨member, fun equal => ?_⟩, satisfied⟩
    rw [equal, SatLiteral.holds_not, isTrue] at satisfied
    cases satisfied

theorem holds_assign {assignment : Nat → Bool} {literal : SatLiteral} {formula : Formula}
    (isTrue : literal.holds assignment = true) :
    (formula.assign literal).holds assignment = formula.holds assignment := by
  induction formula with
  | nil => rfl
  | cons clause others induction =>
      simp only [holds, assign] at induction ⊢
      by_cases member : literal ∈ clause
      · have satisfied : Clause.holds assignment clause = true :=
          List.any_eq_true.mpr ⟨literal, member, isTrue⟩
        have dropped : (!List.contains clause literal) = false := by simp [member]
        rw [List.filter_cons, dropped, List.all_cons, satisfied, Bool.true_and]
        exact induction
      · have kept : (!List.contains clause literal) = true := by simp [member]
        rw [List.filter_cons, kept, if_pos rfl, List.map_cons, List.all_cons, List.all_cons,
          clause_holds_filter isTrue, induction]

theorem index_ne_of_mem_assign {literal other : SatLiteral} {formula : Formula} {clause : Clause}
    (inFormula : clause ∈ formula.assign literal) (inClause : other ∈ clause) :
    other.index ≠ literal.index := by
  simp only [assign, List.mem_map, List.mem_filter] at inFormula
  obtain ⟨source, ⟨-, unsatisfied⟩, rfl⟩ := inFormula
  rw [List.mem_filter] at inClause
  intro same
  rcases eq_or_eq_not same with equal | equal
  · rw [equal] at inClause
    simp [inClause.1] at unsatisfied
  · simp [equal] at inClause

/-- What is left after a literal is assigned is satisfiable exactly when the
formula holds under some assignment that makes the literal true. -/
theorem satisfiable_assign_iff {literal : SatLiteral} {formula : Formula} :
    (formula.assign literal).Satisfiable ↔
      ∃ assignment, literal.holds assignment = true ∧ formula.holds assignment = true := by
  constructor
  · rintro ⟨assignment, satisfied⟩
    have isTrue := holds_force_self literal assignment
    refine ⟨force literal assignment, isTrue, ?_⟩
    rw [← holds_assign isTrue, ← satisfied]
    exact holds_congr fun clause inFormula other inClause =>
      holds_force_of_ne assignment (index_ne_of_mem_assign inFormula inClause)
  · rintro ⟨assignment, isTrue, satisfied⟩
    exact ⟨assignment, (holds_assign isTrue).trans satisfied⟩

theorem holds_of_forced? {literal : SatLiteral} {formula : Formula} {assignment : Nat → Bool}
    (forced : formula.forced? = some literal) (satisfied : formula.holds assignment = true) :
    literal.holds assignment = true := by
  obtain ⟨clause, member, found⟩ := List.exists_of_findSome?_eq_some forced
  split at found
  · cases found
    simpa [Clause.holds] using List.all_eq_true.mp satisfied _ member
  · cases found

private theorem foldl_lower_ne_none {literals : List SatLiteral} {start : SatLiteral} :
    literals.foldl lower (some start) ≠ none := by
  induction literals generalizing start with
  | nil => exact fun impossible => nomatch impossible
  | cons head tail induction =>
      simp only [List.foldl_cons, lower]
      split
      · exact induction
      · exact induction

private theorem eq_nil_of_lowest? {formula : Formula} {clause : Clause}
    (absent : formula.lowest? = none) (member : clause ∈ formula) : clause = [] := by
  cases clause with
  | nil => rfl
  | cons literal others =>
      have inFlat : literal ∈ formula.flatten :=
        List.mem_flatten.mpr ⟨_, member, List.mem_cons_self⟩
      unfold lowest? at absent
      cases flat : formula.flatten with
      | nil => simp [flat] at inFlat
      | cons head tail =>
          rw [flat] at absent
          exact absurd absent foldl_lower_ne_none

theorem isSatisfiable_iff (formula : Formula) :
    formula.isSatisfiable = true ↔ formula.Satisfiable := by
  induction formula using isSatisfiable.induct with
  | case1 formula empty =>
      rw [isSatisfiable, if_pos empty]
      constructor
      · intro impossible
        cases impossible
      rintro ⟨assignment, satisfied⟩
      obtain ⟨clause, member, isEmpty⟩ := List.any_eq_true.mp empty
      have violated := List.all_eq_true.mp satisfied clause member
      rw [List.isEmpty_iff.mp isEmpty] at violated
      cases violated
  | case2 formula nonempty literal forced induction =>
      rw [isSatisfiable, if_neg nonempty]
      split
      · rename_i found same
        rw [forced] at same
        cases same
        rw [induction, satisfiable_assign_iff]
        exact ⟨fun ⟨assignment, _, satisfied⟩ => ⟨assignment, satisfied⟩,
          fun ⟨assignment, satisfied⟩ =>
            ⟨assignment, holds_of_forced? forced satisfied, satisfied⟩⟩
      · simp_all
  | case3 formula nonempty unforced literal lowest positive negative =>
      rw [isSatisfiable, if_neg nonempty]
      split
      · simp_all
      · split
        · rename_i found same
          rw [lowest] at same
          cases same
          rw [Bool.or_eq_true, positive, negative, satisfiable_assign_iff, satisfiable_assign_iff]
          -- a model makes the literal true or its negation, and survives that branch
          constructor
          · rintro (⟨assignment, -, satisfied⟩ | ⟨assignment, -, satisfied⟩)
            · exact ⟨assignment, satisfied⟩
            · exact ⟨assignment, satisfied⟩
          · rintro ⟨assignment, satisfied⟩
            cases value : literal.holds assignment with
            | true => exact .inl ⟨assignment, value, satisfied⟩
            | false => exact .inr ⟨assignment, by simp [value], satisfied⟩
        · simp_all
  | case4 formula nonempty unforced absent =>
      rw [isSatisfiable, if_neg nonempty]
      split
      · simp_all
      · split
        · simp_all
        · refine ⟨fun _ => ⟨fun _ => false, ?_⟩, fun _ => rfl⟩
          apply List.all_eq_true.mpr
          intro clause member
          have isEmpty := eq_nil_of_lowest? absent member
          exact absurd
            (List.any_eq_true.mpr ⟨clause, member, List.isEmpty_iff.mpr isEmpty⟩) nonempty

end AndInverter.Formula
