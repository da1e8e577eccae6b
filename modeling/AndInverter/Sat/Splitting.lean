import AndInverter.Sat.Formula

namespace AndInverter.Formula

/-! Deciding formulas by splitting. A formula without clauses is satisfiable and one
with an empty clause is not; otherwise some literal is made true, and its negation
after it unless a clause of that literal alone forces it. -/

/-- The formula once a literal is true: the clauses with the literal are satisfied,
and the others lose its negation. -/
def assign (literal : SatLiteral) (formula : Formula) : Formula :=
  (formula.filter fun clause => !clause.contains literal).map fun clause =>
    clause.filter (· ≠ literal.not)

def weight (formula : Formula) : Nat :=
  formula.flatten.length

def forced? (formula : Formula) : Option SatLiteral :=
  formula.findSome? fun
    | [literal] => some literal
    | _ => none

def lower : Option SatLiteral → SatLiteral → Option SatLiteral
  | none, literal => some literal
  | some best, literal => if literal.index < best.index then some literal else some best

def lowest? (formula : Formula) : Option SatLiteral :=
  formula.flatten.foldl lower none

def mentions (literal : SatLiteral) (formula : Formula) : Bool :=
  formula.any fun clause => clause.contains literal || clause.contains literal.not

private theorem length_filter_lt {clause : Clause} {literal : SatLiteral}
    (member : literal ∈ clause) : (clause.filter (· ≠ literal)).length < clause.length := by
  apply Nat.lt_of_le_of_ne (List.length_filter_le ..)
  intro equal
  have all := List.length_filter_eq_length_iff.mp equal literal member
  simp at all

private theorem weight_assign_le (literal : SatLiteral) (formula : Formula) :
    (formula.assign literal).weight ≤ formula.weight := by
  induction formula with
  | nil => exact Nat.le_refl _
  | cons clause others induction =>
      simp only [weight, assign] at induction ⊢
      have shorter := List.length_filter_le (fun other => decide (other ≠ literal.not)) clause
      by_cases satisfied : clause.contains literal = true
      · simp only [List.filter_cons, satisfied, Bool.not_true, Bool.false_eq_true, if_false,
          List.flatten_cons, List.length_append]
        omega
      · simp only [List.filter_cons, Bool.not_eq_true] at satisfied ⊢
        simp only [satisfied, Bool.not_false, if_true, List.map_cons, List.flatten_cons,
          List.length_append]
        omega

theorem weight_assign_lt {literal : SatLiteral} {formula : Formula}
    (mentioned : formula.mentions literal = true) :
    (formula.assign literal).weight < formula.weight := by
  induction formula with
  | nil => simp [mentions] at mentioned
  | cons clause others induction =>
      have rest_le := weight_assign_le literal others
      have shorter := List.length_filter_le (fun other => decide (other ≠ literal.not)) clause
      simp only [mentions, List.any_cons, Bool.or_eq_true] at mentioned induction
      simp only [weight, assign] at induction rest_le ⊢
      by_cases satisfied : clause.contains literal = true
      · have member : literal ∈ clause := by simpa using satisfied
        have nonempty := List.length_pos_of_mem member
        simp only [List.filter_cons, satisfied, Bool.not_true, Bool.false_eq_true, if_false,
          List.flatten_cons, List.length_append]
        omega
      · simp only [Bool.not_eq_true] at satisfied
        simp only [List.filter_cons, satisfied, Bool.not_false, if_true, List.map_cons,
          List.flatten_cons, List.length_append]
        rcases mentioned with (here | here) | later
        · rw [satisfied] at here
          cases here
        · have member : literal.not ∈ clause := by simpa using here
          have dropped := length_filter_lt member
          omega
        · have less := induction later
          omega

theorem mentions_not (literal : SatLiteral) (formula : Formula) :
    formula.mentions literal.not = formula.mentions literal := by
  simp [mentions, Bool.or_comm]

theorem mentions_of_mem {literal : SatLiteral} {clause : Clause} {formula : Formula}
    (inFormula : clause ∈ formula) (inClause : literal ∈ clause) :
    formula.mentions literal = true := by
  simp only [mentions, List.any_eq_true]
  exact ⟨clause, inFormula, by simp [inClause]⟩

theorem mentions_of_forced? {literal : SatLiteral} {formula : Formula}
    (forced : formula.forced? = some literal) : formula.mentions literal = true := by
  obtain ⟨clause, member, found⟩ := List.exists_of_findSome?_eq_some forced
  split at found
  · cases found
    exact mentions_of_mem member (List.mem_singleton_self _)
  · cases found

private theorem mem_of_foldl_lower {literals : List SatLiteral} {start : Option SatLiteral}
    {literal : SatLiteral} (found : literals.foldl lower start = some literal) :
    literal ∈ literals ∨ start = some literal := by
  induction literals generalizing start with
  | nil => exact .inr found
  | cons head tail induction =>
      rcases induction found with member | here
      · exact .inl (List.mem_cons_of_mem _ member)
      · cases start with
        | none => exact .inl (by cases here; exact List.mem_cons_self)
        | some best =>
            simp only [lower] at here
            split at here
            · exact .inl (by cases here; exact List.mem_cons_self)
            · exact .inr here

theorem mentions_of_lowest? {literal : SatLiteral} {formula : Formula}
    (lowest : formula.lowest? = some literal) : formula.mentions literal = true := by
  rcases mem_of_foldl_lower lowest with member | impossible
  · obtain ⟨clause, inFormula, inClause⟩ := List.mem_flatten.mp member
    exact mentions_of_mem inFormula inClause
  · cases impossible

def isSatisfiable (formula : Formula) : Bool :=
  if formula.any List.isEmpty then false
  else
    match _ : formula.forced? with
    | some literal => isSatisfiable (formula.assign literal)
    | none =>
        match _ : formula.lowest? with
        | some literal =>
            isSatisfiable (formula.assign literal) || isSatisfiable (formula.assign literal.not)
        | none => true
termination_by formula.weight
decreasing_by
  · exact weight_assign_lt (mentions_of_forced? (by assumption))
  · exact weight_assign_lt (mentions_of_lowest? (by assumption))
  · exact weight_assign_lt ((mentions_not ..).trans (mentions_of_lowest? (by assumption)))

end AndInverter.Formula
