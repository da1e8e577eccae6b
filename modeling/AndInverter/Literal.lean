import AndInverter.Word

namespace AndInverter

/-! Edges of the graph. A literal names a node and says whether its value is
read as it is or inverted. Its number, twice the node plus one when inverted, is
the one that circuit files use. -/

structure Literal where
  node : Nat
  inverted : Bool
deriving DecidableEq, Repr, Inhabited

namespace Literal

def low : Literal := ⟨0, false⟩

def high : Literal := ⟨0, true⟩

def plain (node : Nat) : Literal := ⟨node, false⟩

def raw (literal : Literal) : Nat :=
  2 * literal.node + literal.inverted.toNat

def ofRaw (number : Nat) : Literal :=
  ⟨number / 2, number % 2 = 1⟩

/-- The literal as its number is packed into 64 bits: the doubled node has no
room for its highest bit, which is lost. -/
def packed (node : Nat) (inverted : Bool) : Literal :=
  ⟨node % 1 <<< 63, inverted⟩

def not (literal : Literal) : Literal :=
  ⟨literal.node, !literal.inverted⟩

def xor (literal : Literal) (flip : Bool) : Literal :=
  ⟨literal.node, literal.inverted != flip⟩

def regular (literal : Literal) : Literal :=
  ⟨literal.node, false⟩

def isOpposite (left right : Literal) : Bool :=
  left.node = right.node && left.inverted != right.inverted

def mask (literal : Literal) : Word :=
  Word.fill literal.inverted

def text (literal : Literal) : String :=
  (if literal.inverted then "!" else "") ++ toString literal.node

instance : ToString Literal := ⟨text⟩

instance : Ord Literal := ⟨fun left right => compare left.raw right.raw⟩

instance : LE Literal := ⟨fun left right => left.raw ≤ right.raw⟩

instance (left right : Literal) : Decidable (left ≤ right) :=
  inferInstanceAs (Decidable (left.raw ≤ right.raw))

@[simp] theorem ofRaw_raw (literal : Literal) : ofRaw literal.raw = literal := by
  obtain ⟨node, inverted⟩ := literal
  cases inverted with
  | false => simp [ofRaw, raw]
  | true => simp [ofRaw, raw]; omega

@[simp] theorem raw_ofRaw (number : Nat) : (ofRaw number).raw = number := by
  by_cases odd : number % 2 = 1 <;> simp [ofRaw, raw, odd] <;> omega

theorem raw_injective {left right : Literal} (equal : left.raw = right.raw) : left = right := by
  rw [← ofRaw_raw left, equal, ofRaw_raw]

@[simp] theorem not_not (literal : Literal) : literal.not.not = literal := by
  simp [not]

@[simp] theorem node_not (literal : Literal) : literal.not.node = literal.node := rfl

@[simp] theorem node_xor (literal : Literal) (flip : Bool) :
    (literal.xor flip).node = literal.node := rfl

@[simp] theorem inverted_xor (literal : Literal) (flip : Bool) :
    (literal.xor flip).inverted = (literal.inverted != flip) := rfl

@[simp] theorem xor_false (literal : Literal) : literal.xor false = literal := by
  simp [xor]

@[simp] theorem xor_true (literal : Literal) : literal.xor true = literal.not := by
  simp [xor, not]

@[simp] theorem xor_xor (literal : Literal) (flip : Bool) :
    (literal.xor flip).xor flip = literal := by
  simp [xor]

theorem xor_injective (flip : Bool) : Function.Injective (xor · flip) := by
  intro left right equal
  rw [← xor_xor left flip, ← xor_xor right flip]
  exact congrArg (xor · flip) equal

theorem isOpposite_iff (left right : Literal) :
    left.isOpposite right = true ↔ right = left.not := by
  obtain ⟨leftNode, leftFlag⟩ := left
  obtain ⟨rightNode, rightFlag⟩ := right
  cases leftFlag <;> cases rightFlag <;> simp [isOpposite, not, eq_comm]

theorem eq_or_eq_not {left right : Literal} (same : left.node = right.node) :
    left = right ∨ left = right.not := by
  rcases left with ⟨node, leftFlag⟩
  rcases right with ⟨other, rightFlag⟩
  cases same
  cases leftFlag <;> cases rightFlag <;> simp [Literal.not]

theorem node_eq_iff {left right : Literal} :
    left.node = right.node ↔ left = right ∨ right = left.not := by
  constructor
  · intro same
    exact (eq_or_eq_not same.symm).imp_left Eq.symm
  · rintro (rfl | rfl) <;> rfl

theorem node_eq_zero_iff {literal : Literal} :
    literal.node = 0 ↔ literal = .low ∨ literal = .high := by
  rcases literal with ⟨node, inverted⟩
  cases inverted <;> simp [low, high]

end Literal

end AndInverter
