namespace AndInverter

/-! Activities. An activity is a nonnegative number with 24 significant binary digits.
A sum or a product is rounded to the nearest such number, and to the even one of two that
are equally near. An activity is kept as its single-precision encoding, so that
activities compare as their encodings do. -/

structure Activity where
  encoding : Nat

namespace Activity

def zero : Activity := ⟨0⟩

def one : Activity := ⟨127 <<< 23⟩

def significand (activity : Activity) : Nat :=
  if activity.encoding < 1 <<< 23 then activity.encoding
  else 1 <<< 23 + activity.encoding % 1 <<< 23

/-- The activity is its significand times two to the power of this, less 150. -/
def scale (activity : Activity) : Nat :=
  max 1 (activity.encoding >>> 23)

def divideRounded (value shift : Nat) : Nat :=
  let quotient := value >>> shift
  let twice := 2 * (value % 1 <<< shift)
  if 1 <<< shift < twice || (1 <<< shift = twice && quotient % 2 = 1) then quotient + 1
  else quotient

/-- The activity nearest to a whole number times two to the power of `scale - 300`. -/
def nearest (value scale : Nat) : Activity :=
  let length := value.log2 + 1
  let excess := max (length - 24) (151 - scale)
  if value = 0 then zero
  else if excess = 0 then
    let shift := min (24 - length) (scale - 151)
    ⟨(scale - shift - 151) <<< 23 + value <<< shift⟩
  else ⟨(scale + excess - 151) <<< 23 + divideRounded value excess⟩

def add (left right : Activity) : Activity :=
  let scale := min left.scale right.scale
  nearest
    (left.significand <<< (left.scale - scale) + right.significand <<< (right.scale - scale))
    (scale + 150)

def multiply (left right : Activity) : Activity :=
  nearest (left.significand * right.significand) (left.scale + right.scale)

def isBelow (left right : Activity) : Bool :=
  left.encoding < right.encoding

end Activity

end AndInverter
