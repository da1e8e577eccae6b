namespace AndInverter

/-! Spare numbers. The numbers that no variable has lie in slots: each one in the first
empty slot from its own one on, which is a multiple of it. The one in the first slot is
taken next. -/

structure Spares where
  slots : Array (Option Nat)
  count : Nat

namespace Spares

def empty : Spares := ⟨#[], 0⟩

/-- How many numbers some slots may hold. An eighth of the slots stays empty, and at
least one. -/
def capacity (slots : Nat) : Nat :=
  if slots ≤ 8 then slots - 1 else slots / 8 * 7

def multiplier : Nat := 0x517cc1b727220a95

def putFrom (number : Nat) : (left place : Nat) → Array (Option Nat) → Array (Option Nat)
  | 0, _, slots => slots
  | left + 1, place, slots =>
      let slot := place % slots.size
      if (slots.getD slot none).isNone then slots.setIfInBounds slot (some number)
      else putFrom number left (slot + 1) slots

def put (slots : Array (Option Nat)) (number : Nat) : Array (Option Nat) :=
  putFrom number slots.size (number * multiplier) slots

def grow (spares : Spares) : Spares :=
  { spares with
    slots := (spares.slots.filterMap id).foldl put
      (Array.replicate (max 4 (2 * spares.slots.size)) none) }

def insert (number : Nat) (spares : Spares) : Spares :=
  let roomy := if spares.count < capacity spares.slots.size then spares else spares.grow
  ⟨put roomy.slots number, roomy.count + 1⟩

def take? (spares : Spares) : Option (Nat × Spares) := do
  let slot ← spares.slots.findIdx? Option.isSome
  let number ← spares.slots.getD slot none
  return (number, ⟨spares.slots.setIfInBounds slot none, spares.count - 1⟩)

end Spares

end AndInverter
