namespace AndInverter

/-! Simulation words. A word carries the value of one signal under thirty-two
input patterns at once, one pattern a lane, the first pattern in the lowest
lane. -/

abbrev Word := BitVec 32

namespace Word

def width : Nat := 32

def fill (bit : Bool) : Word :=
  if bit then BitVec.allOnes 32 else 0#32

def ofLanes (bit : Nat → Bool) : Word :=
  (BitVec.iunfoldr (fun lane (_ : Unit) => ((), bit lane)) ()).2

def lowest (count : Nat) : Word :=
  BitVec.ofNat 32 (1 <<< min count 32 - 1)

def mark (index : Nat) (word : Word) : Word :=
  word ||| 1#32 <<< index

/-- The value that the word holds in a lane; lanes past the last hold zero. -/
def lane (word : Word) (index : Nat) : Bool :=
  word.getLsbD index

@[simp] theorem lane_ofLanes (bit : Nat → Bool) (index : Nat) :
    (ofLanes bit).lane index = (decide (index < 32) && bit index) := by
  by_cases inside : index < 32
  · have same := BitVec.iunfoldr_getLsbD (w := 32)
      (f := fun lane (_ : Unit) => ((), bit lane)) (fun _ => ()) ⟨index, inside⟩
      (fun _ => rfl)
    simpa [lane, ofLanes, inside] using same
  · simp [lane, BitVec.getLsbD_of_ge _ _ (Nat.le_of_not_lt inside), inside]

@[simp] theorem lane_fill (bit : Bool) (index : Nat) :
    (fill bit).lane index = (decide (index < 32) && bit) := by
  cases bit with
  | false => simp [fill, lane]
  | true => exact (BitVec.getLsbD_allOnes).trans (by simp)

@[simp] theorem lane_zero (index : Nat) : lane 0#32 index = false :=
  BitVec.getLsbD_zero

@[simp] theorem lane_lowest (count index : Nat) :
    (lowest count).lane index = (decide (index < 32) && decide (index < count)) := by
  rw [lane, lowest, Nat.one_shiftLeft, BitVec.getLsbD_ofNat, Nat.testBit_two_pow_sub_one,
    Bool.eq_iff_iff]
  simp only [Bool.and_eq_true, decide_eq_true_eq]
  omega

@[simp] theorem lane_and (left right : Word) (index : Nat) :
    (left &&& right).lane index = (left.lane index && right.lane index) := by
  simp [lane]

@[simp] theorem lane_xor (left right : Word) (index : Nat) :
    (left ^^^ right).lane index = (left.lane index != right.lane index) := by
  simp [lane]

@[simp] theorem lane_mark (marked : Nat) (word : Word) (index : Nat) :
    (word.mark marked).lane index = (word.lane index || decide (index < 32 ∧ index = marked)) := by
  rw [lane, mark, BitVec.getLsbD_or, ← lane, BitVec.getLsbD_shiftLeft, BitVec.getLsbD_one]
  congr 1
  rw [Bool.eq_iff_iff]
  simp only [Bool.and_eq_true, Bool.not_eq_true', decide_eq_true_eq, decide_eq_false_iff_not]
  omega

theorem ext_lane {left right : Word}
    (equal : ∀ index, index < 32 → left.lane index = right.lane index) : left = right := by
  apply BitVec.eq_of_getLsbD_eq
  intro index inside
  exact equal index inside

end Word

end AndInverter
