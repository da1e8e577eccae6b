import AndInverter.Passes.Pass

namespace AndInverter

/-! Simplification: a gate that is trivial, because one of its literals is
constant or both are on the same node, is merged into what it equals. -/

/-- What a gate equals by the laws of a conjunction with a constant, of an
idempotent one and of a contradictory one. -/
def trivialGate? (left right : Literal) : Option Literal :=
  if left = .high then some right
  else if right = .high then some left
  else if left = .low || right = .low then some .low
  else if left = right then some left
  else if left.isOpposite right then some .low
  else none

def simplification : Pass Unit where
  cause := .simplification
  initial := ()
  judge _ _ left right := (trivialGate? left right, ())
  announcement gate survivor := .trivial gate survivor
  summary merges := .simplified merges

end AndInverter
