import AndInverter.Sat.Derivation

namespace AndInverter

/-! Trails. A search sets literals one after another, some by decision and the others
because a clause forces them, and takes them back later. A search has its own numbers
for variables, and inside it a literal is a code, twice the number of its variable, plus
one when negated, so that arrays can be indexed by literals. -/

def opposite (code : Nat) : Nat :=
  code ^^^ 1

inductive Value
  | unset
  | holds
  | fails
deriving DecidableEq

inductive Reason
  | none
  | unit (source : Source)
  | pair (other : Nat) (source : Source)
  | long (number : Nat)

structure Trail where
  values : Array Value
  /-- the literals that were set, in order; those that are settled are left out -/
  entries : Array Nat
  limits : Array Nat
  levels : Array Nat
  reasons : Array Reason
  places : Array Nat

namespace Trail

def empty : Trail := ⟨#[], #[], #[], #[], #[], #[]⟩

def widen (trail : Trail) : Trail :=
  { trail with
    values := (trail.values.push .unset).push .unset
    levels := trail.levels.push 0
    reasons := trail.reasons.push .none
    places := trail.places.push 0 }

def value (trail : Trail) (code : Nat) : Value :=
  trail.values.getD code .unset

def level (trail : Trail) : Nat :=
  trail.limits.size

def levelOf (trail : Trail) (code : Nat) : Nat :=
  trail.levels.getD (code / 2) 0

def reasonOf (trail : Trail) (code : Nat) : Reason :=
  trail.reasons.getD (code / 2) .none

def settle (code : Nat) (trail : Trail) : Trail :=
  { trail with
    values := (trail.values.setIfInBounds code .holds).setIfInBounds (opposite code) .fails
    levels := trail.levels.setIfInBounds (code / 2) 0
    reasons := trail.reasons.setIfInBounds (code / 2) .none }

def assign (code : Nat) (reason : Reason) (trail : Trail) : Trail :=
  let index := code / 2
  let entries := trail.entries.push code
  { trail with
    entries
    values := (trail.values.setIfInBounds code .holds).setIfInBounds (opposite code) .fails
    levels := trail.levels.setIfInBounds index trail.limits.size
    reasons := trail.reasons.setIfInBounds index reason
    places := trail.places.setIfInBounds index (entries.size - 1) }

def deepen (trail : Trail) : Trail :=
  { trail with limits := trail.limits.push trail.entries.size }

def unassign (code : Nat) (trail : Trail) : Trail :=
  { trail with
    values := (trail.values.setIfInBounds code .unset).setIfInBounds (opposite code) .unset }

end Trail

end AndInverter
