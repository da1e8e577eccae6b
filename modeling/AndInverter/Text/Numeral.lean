namespace AndInverter.Text

/-! Decimal numerals of 64-bit numbers. A numeral is at least one decimal digit,
after at most one plus sign; leading zeros are allowed, and the value is below
two to the sixty-fourth. -/

def unsigned : List Char → List Char
  | '+' :: digits => digits
  | digits => digits

def numeral? (text : List Char) : Option Nat :=
  if unsigned text ≠ [] ∧ (unsigned text).all Char.isDigit then
    some (Nat.ofDigitChars 10 (unsigned text) 0) |>.filter (· < UInt64.size)
  else none

theorem numeral?_lt {text : List Char} {value : Nat} (read : numeral? text = some value) :
    value < UInt64.size := by
  unfold numeral? at read
  split at read
  · exact of_decide_eq_true (Option.filter_eq_some_iff.mp read).2
  · simp at read

end AndInverter.Text
