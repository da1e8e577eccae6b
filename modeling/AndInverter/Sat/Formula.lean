import AndInverter.Error

namespace AndInverter

/-! Formulas in conjunctive normal form. A variable is an index; a clause is a list
of literals, one of which has to hold; a formula is a list of clauses, all of which
have to hold. -/

structure SatLiteral where
  index : Nat
  negated : Bool
deriving DecidableEq, Repr

namespace SatLiteral

def ofIndex (index : Nat) : SatLiteral := ⟨index, false⟩

def not (literal : SatLiteral) : SatLiteral :=
  ⟨literal.index, !literal.negated⟩

def dimacs (literal : SatLiteral) : Int :=
  if literal.negated then -(literal.index + 1) else literal.index + 1

def ofDimacs (number : Int) : SatLiteral :=
  ⟨number.natAbs - 1, number < 0⟩

/-- The literal of a variable when its DIMACS number is kept in 64 bits, in two's
complement. The index after the largest positive number has none, and neither has
the last index of 64 bits, whose number would be zero; between them the number
wraps, and the literal is a negated one. -/
def ofIndex64 (index : Nat) : Result SatLiteral :=
  if index < 1 <<< 63 - 1 then .ok (ofIndex index)
  else if 1 <<< 63 ≤ index ∧ index < UInt64.size - 1 then .ok ⟨UInt64.size - 2 - index, true⟩
  else .error .overflow

def code (literal : SatLiteral) : Nat :=
  2 * literal.index + literal.negated.toNat

def ofCode (code : Nat) : SatLiteral :=
  ⟨code / 2, code % 2 = 1⟩

def holds (assignment : Nat → Bool) (literal : SatLiteral) : Bool :=
  assignment literal.index != literal.negated

@[simp] theorem not_not (literal : SatLiteral) : literal.not.not = literal := by
  simp [not]

@[simp] theorem holds_not (assignment : Nat → Bool) (literal : SatLiteral) :
    literal.not.holds assignment = !literal.holds assignment := by
  cases equal : assignment literal.index <;> cases flag : literal.negated <;>
    simp [holds, not, equal, flag]

@[simp] theorem ofCode_code (literal : SatLiteral) : ofCode literal.code = literal := by
  obtain ⟨index, negated⟩ := literal
  cases negated with
  | false => simp [ofCode, code]
  | true => simp [ofCode, code]; omega

theorem code_injective {left right : SatLiteral} (equal : left.code = right.code) :
    left = right := by
  rw [← ofCode_code left, equal, ofCode_code]

@[simp] theorem ofDimacs_dimacs (literal : SatLiteral) : ofDimacs literal.dimacs = literal := by
  obtain ⟨index, negated⟩ := literal
  cases negated <;> simp [ofDimacs, dimacs] <;> omega

end SatLiteral

abbrev Clause := List SatLiteral

abbrev Formula := List Clause

def Clause.holds (assignment : Nat → Bool) (clause : Clause) : Bool :=
  clause.any (·.holds assignment)

namespace Formula

def holds (assignment : Nat → Bool) (formula : Formula) : Bool :=
  formula.all (Clause.holds assignment)

theorem holds_append (assignment : Nat → Bool) (left right : Formula) :
    Formula.holds assignment (left ++ right) = (left.holds assignment && right.holds assignment) :=
  List.all_append

theorem holds_congr {left right : Nat → Bool} {formula : Formula}
    (equal : ∀ clause ∈ formula, ∀ literal ∈ clause,
      literal.holds left = literal.holds right) :
    formula.holds left = formula.holds right := by
  rw [Bool.eq_iff_iff]
  simp only [holds, Clause.holds, List.all_eq_true, List.any_eq_true]
  constructor
  · intro every clause inFormula
    obtain ⟨literal, inClause, satisfied⟩ := every clause inFormula
    exact ⟨literal, inClause, (equal clause inFormula literal inClause).symm.trans satisfied⟩
  · intro every clause inFormula
    obtain ⟨literal, inClause, satisfied⟩ := every clause inFormula
    exact ⟨literal, inClause, (equal clause inFormula literal inClause).trans satisfied⟩

def Satisfiable (formula : Formula) : Prop :=
  ∃ assignment, formula.holds assignment = true

def units (literals : List SatLiteral) : Formula :=
  literals.map fun literal => [literal]

def andGate (gate left right : SatLiteral) : Formula :=
  [[left, gate.not], [right, gate.not], [left.not, right.not, gate]]

def xorGate (gate left right : SatLiteral) : Formula :=
  [[left, right, gate.not], [left, right.not, gate],
    [left.not, right, gate], [left.not, right.not, gate.not]]

theorem andGate_holds (assignment : Nat → Bool) (gate left right : SatLiteral) :
    (andGate gate left right).holds assignment = true ↔
      gate.holds assignment = (left.holds assignment && right.holds assignment) := by
  cases leftValue : left.holds assignment <;> cases rightValue : right.holds assignment <;>
    cases gateValue : gate.holds assignment <;>
    simp [andGate, holds, Clause.holds, leftValue, rightValue, gateValue]

theorem index_of_mem_andGate {gate left right literal : SatLiteral} {clause : Clause}
    (member : clause ∈ andGate gate left right) (inClause : literal ∈ clause) :
    literal.index = gate.index ∨ literal.index = left.index ∨ literal.index = right.index := by
  simp only [andGate, List.mem_cons, List.not_mem_nil, or_false] at member
  rcases member with rfl | rfl | rfl <;>
    simp only [List.mem_cons, List.not_mem_nil, or_false] at inClause
  · rcases inClause with rfl | rfl
    · exact .inr (.inl rfl)
    · exact .inl rfl
  · rcases inClause with rfl | rfl
    · exact .inr (.inr rfl)
    · exact .inl rfl
  · rcases inClause with rfl | rfl | rfl
    · exact .inr (.inl rfl)
    · exact .inr (.inr rfl)
    · exact .inl rfl

theorem xorGate_holds (assignment : Nat → Bool) (gate left right : SatLiteral) :
    (xorGate gate left right).holds assignment = true ↔
      gate.holds assignment = (left.holds assignment != right.holds assignment) := by
  cases leftValue : left.holds assignment <;> cases rightValue : right.holds assignment <;>
    cases gateValue : gate.holds assignment <;>
    simp [xorGate, holds, Clause.holds, leftValue, rightValue, gateValue]

end Formula

end AndInverter
