import AndInverter.Traversal.Room

namespace AndInverter

/-! Marks on ids: a finite set of natural numbers, kept as one flag an id. Marks
grow as needed, and an id past the end is unmarked. -/

structure Marks where
  flags : Array Bool
deriving DecidableEq, Repr, Inhabited

namespace Marks

def none (size : Nat) : Marks :=
  ⟨Array.replicate size false⟩

def contains (marks : Marks) (id : Nat) : Bool :=
  marks.flags[id]?.getD false

def insert (id : Nat) (marks : Marks) : Marks :=
  let roomy := marks.flags ++ Array.replicate (id + 1 - marks.flags.size) false
  ⟨roomy.setIfInBounds id true⟩

def reset (size : Nat) (marks : Marks) : Marks :=
  { marks with flags := Array.replicate size false }

def unmarked (bound : Nat) (marks : Marks) : Nat :=
  room bound marks.contains

@[simp] theorem contains_none (size id : Nat) : (none size).contains id = false := by
  simp only [contains, none, Array.getElem?_replicate]
  split <;> rfl

@[simp] theorem contains_insert (marks : Marks) (id other : Nat) :
    (marks.insert id).contains other = (decide (other = id) || marks.contains other) := by
  simp only [contains, insert, Array.getElem?_setIfInBounds, Array.getElem?_append,
    Array.size_append, Array.size_replicate, Array.getElem?_replicate]
  by_cases same : id = other
  · subst same
    have room : id < marks.flags.size + (id + 1 - marks.flags.size) := by omega
    simp [room]
  · by_cases old : other < marks.flags.size
    · simp [same, Ne.symm same, old]
    · have absent : marks.flags[other]? = Option.none := by simpa using old
      simp only [same, Ne.symm same, old, absent, if_false, decide_false, Bool.false_or,
        Option.getD_none]
      split <;> rfl

theorem contains_insert_self (marks : Marks) (id : Nat) : (marks.insert id).contains id = true := by
  simp

theorem contains_insert_of_contains {marks : Marks} {other : Nat}
    (marked : marks.contains other = true) (id : Nat) :
    (marks.insert id).contains other = true := by
  rw [contains_insert, marked, Bool.or_true]

theorem unmarked_le (bound : Nat) (marks : Marks) : marks.unmarked bound ≤ bound :=
  room_le bound marks.contains

theorem unmarked_insert_lt {bound id : Nat} {marks : Marks} (inside : id < bound)
    (fresh : marks.contains id = false) :
    (marks.insert id).unmarked bound < marks.unmarked bound :=
  room_lt inside (by simp +contextual) fresh (by simp)

end Marks

end AndInverter
