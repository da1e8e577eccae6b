import AndInverter.Proofs.Simulation.Patterns
import AndInverter.Simulation.Sources

namespace AndInverter

/-! The exhaustive source over machine words. The number of the next pattern and the number of
all patterns are words of sixty-four bits, and a sum that does not fit into one is a failure.
Such a source answers as the one over natural numbers does, so none of its sums fails. -/

/-! ## Checked sums -/

def checkedSum (left right : UInt64) : Result UInt64 :=
  if UInt64.size ≤ left.toNat + right.toNat then .error .overflow else .ok (left + right)

theorem checkedSum_eq_ok_iff {left right sum : UInt64} :
    checkedSum left right = .ok sum ↔ sum.toNat = left.toNat + right.toNat := by
  rw [checkedSum]
  split
  · rename_i tooLarge
    have small := sum.toNat_lt_size
    simp only [reduceCtorEq, false_iff]
    omega
  · rename_i fits
    rw [Except.ok.injEq, ← UInt64.toNat_inj, UInt64.toNat_add,
      Nat.mod_eq_of_lt (Nat.lt_of_not_le fits), eq_comm]

theorem exists_checkedSum {left right : UInt64} (fits : left.toNat + right.toNat < UInt64.size) :
    ∃ sum, checkedSum left right = .ok sum ∧ sum.toNat = left.toNat + right.toNat := by
  have success : checkedSum left right = .ok (left + right) :=
    if_neg (Nat.not_le.mpr fits)
  exact ⟨_, success, checkedSum_eq_ok_iff.mp success⟩

/-! ## The source -/

structure ExhaustiveCounter where
  position : UInt64
  total : UInt64
deriving DecidableEq, Repr

namespace ExhaustiveCounter

def ofInputs (inputs : Nat) : ExhaustiveCounter :=
  ⟨0, 1 <<< (min inputs 63).toUInt64⟩

/-- The bits of a pattern. The number has none for inputs past the sixty-fourth. -/
def bits (inputs : Nat) (pattern : UInt64) : List Bool :=
  (List.range inputs).map fun input =>
    decide (input < 64) && (pattern >>> input.toUInt64) &&& 1 == 1

def batchFrom (inputs : Nat) (position length : UInt64) : Result (Batch × UInt64) := do
  let patterns ← (List.range length.toNat).mapM fun lane =>
    (checkedSum position lane.toUInt64).map (bits inputs)
  let after ← checkedSum position length
  return (.packed inputs patterns, after)

def batchLength (counter : ExhaustiveCounter) : UInt64 :=
  if counter.total - counter.position ≤ 32 then counter.total - counter.position else 32

def next (inputs : Nat) (counter : ExhaustiveCounter) :
    Result (Option Batch) × ExhaustiveCounter :=
  if counter.total ≤ counter.position then (.ok none, counter)
  else
    match batchFrom inputs counter.position counter.batchLength with
    | .error failure => (.error failure, counter)
    | .ok (batch, position) => (.ok (some batch), { counter with position })

theorem toNat_batchLength {counter : ExhaustiveCounter}
    (inside : counter.position < counter.total) :
    counter.batchLength.toNat =
      min (counter.total.toNat - counter.position.toNat) Word.width := by
  have left : (counter.total - counter.position).toNat =
      counter.total.toNat - counter.position.toNat :=
    UInt64.toNat_sub_of_le _ _ (UInt64.le_of_lt inside)
  rw [← left, batchLength]
  split
  · rename_i few
    exact (Nat.min_eq_left (UInt64.le_iff_toNat_le.mp few)).symm
  · rename_i many
    have full : 32 ≤ (counter.total - counter.position).toNat :=
      Nat.le_of_lt (UInt64.lt_iff_toNat_lt.mp (UInt64.not_le.mp many))
    exact (Nat.min_eq_right full).symm

instance : Stimulus ExhaustiveCounter where
  next := next
  remaining counter := counter.total.toNat - counter.position.toNat
  remaining_lt := by
    intro inputs counter after batch asked
    unfold next at asked
    split at asked
    · simp at asked
    · rename_i inside
      split at asked
      · simp at asked
      · rename_i built
        simp only [batchFrom, Result.bind_eq_ok_iff, Result.pure_eq_ok_iff, Prod.mk.injEq,
          checkedSum_eq_ok_iff] at built
        rcases built with ⟨-, -, position, sum, -, rfl⟩
        rw [UInt64.not_le] at inside
        rw [toNat_batchLength inside] at sum
        have below := UInt64.lt_iff_toNat_lt.mp inside
        simp only [Prod.mk.injEq] at asked
        rw [← asked.2, sum]
        simp only [Word.width]
        omega

/-! ## Agreement -/

theorem bits_eq (inputs : Nat) (pattern : UInt64) :
    bits inputs pattern = (List.range inputs).map pattern.toNat.testBit := by
  rw [bits]
  apply List.map_congr_left
  intro input _
  by_cases inside : input < 64
  · have shift : input.toUInt64.toNat % 64 = input := by
      rw [Nat.toUInt64_eq, UInt64.toNat_ofNat']
      omega
    rw [Bool.eq_iff_iff, Nat.testBit_eq_decide_div_mod_eq]
    simp only [inside, decide_true, Bool.true_and, beq_iff_eq, decide_eq_true_eq]
    rw [← UInt64.toNat_inj, UInt64.toNat_and, UInt64.toNat_shiftRight, shift, UInt64.toNat_one,
      Nat.and_one_is_mod, Nat.shiftRight_eq_div_pow]
  · have small : pattern.toNat < 2 ^ input :=
      Nat.lt_of_lt_of_le pattern.toNat_lt (Nat.pow_le_pow_right (by decide) (by omega))
    rw [Nat.testBit_lt_two_pow small]
    simp [inside]

theorem packed_eq_ofWords (inputs position length : Nat) :
    Batch.packed inputs ((List.range length).map fun lane =>
        (List.range inputs).map (position + lane).testBit) =
      .ofWords ((List.range inputs).map (ExhaustiveSource.word position)) length := by
  rw [Batch.packed_eq_ofPatterns (by simp), Batch.ofPatterns, List.length_map, List.length_range,
    Batch.ofWords, Batch.ofWords, List.map_map, List.map_map]
  congr 1
  apply List.map_congr_left
  intro input member
  rw [List.mem_range] at member
  apply Word.ext_lane
  intro lane room
  by_cases inside : lane < length
  · simp [ExhaustiveSource.lane_word, room, inside, member]
  · simp [inside]

theorem batchFrom_eq (inputs : Nat) {position length : UInt64}
    (fits : position.toNat + length.toNat < UInt64.size) :
    ∃ after, batchFrom inputs position length =
        .ok (.ofWords ((List.range inputs).map (ExhaustiveSource.word position.toNat))
          length.toNat, after) ∧ after.toNat = position.toNat + length.toNat := by
  have rows : (List.range length.toNat).mapM (fun lane =>
      (checkedSum position lane.toUInt64).map (bits inputs)) =
        .ok ((List.range length.toNat).map fun lane =>
          (List.range inputs).map (position.toNat + lane).testBit) := by
    apply Result.mapM_eq_ok
    intro lane member
    rw [List.mem_range] at member
    have small : lane.toUInt64.toNat = lane := UInt64.toNat_ofNat_of_lt' (by omega)
    have fit : position.toNat + lane.toUInt64.toNat < UInt64.size := by omega
    rcases exists_checkedSum fit with ⟨pattern, success, sum⟩
    rw [success, Except.map, bits_eq, sum, small]
  rcases exists_checkedSum fits with ⟨after, success, sum⟩
  refine ⟨after, ?_, sum⟩
  rw [batchFrom, rows, success, ← packed_eq_ofWords]
  rfl

/-- The words hold the numbers of a source. The patterns end at a number that leaves room for
the sums. -/
structure Represents (counter : ExhaustiveCounter) (source : ExhaustiveSource) : Prop where
  position : counter.position.toNat = source.position
  total : counter.total.toNat = source.total
  room : source.total + Word.width ≤ UInt64.size

theorem represents_ofInputs (inputs : Nat) :
    (ofInputs inputs).Represents (ExhaustiveSource.ofInputs inputs) where
  position := rfl
  total := by
    have shift : (min inputs 63).toUInt64.toNat = min inputs 63 :=
      UInt64.toNat_ofNat_of_lt' (by rw [UInt64.size]; omega)
    have small : 2 ^ min inputs 63 ≤ 2 ^ 63 := Nat.pow_le_pow_right (by decide) (by omega)
    rw [ofInputs, UInt64.toNat_shiftLeft, shift, ExhaustiveSource.ofInputs, Nat.one_shiftLeft,
      UInt64.toNat_one, Nat.one_shiftLeft, Nat.mod_eq_of_lt (show min inputs 63 < 64 by omega),
      Nat.mod_eq_of_lt (Nat.lt_of_le_of_lt small (by decide))]
  room := by
    have small : 2 ^ min inputs 63 ≤ 2 ^ 63 := Nat.pow_le_pow_right (by decide) (by omega)
    rw [ExhaustiveSource.ofInputs, Nat.one_shiftLeft, Word.width]
    exact Nat.le_trans (Nat.add_le_add_right small 32) (by decide)

theorem Represents.next {counter : ExhaustiveCounter} {source : ExhaustiveSource}
    (represents : counter.Represents source) (inputs : Nat) :
    (Stimulus.next inputs counter).1 = (Stimulus.next inputs source).1 ∧
      (Stimulus.next inputs counter).2.Represents (Stimulus.next inputs source).2 := by
  rcases represents with ⟨position, total, room⟩
  change (ExhaustiveCounter.next inputs counter).1 = (source.next inputs).1 ∧
    (ExhaustiveCounter.next inputs counter).2.Represents (source.next inputs).2
  rw [ExhaustiveCounter.next, ExhaustiveSource.next]
  have ended_iff : counter.total ≤ counter.position ↔ source.total ≤ source.position := by
    rw [UInt64.le_iff_toNat_le, position, total]
  by_cases ended : source.total ≤ source.position
  · rw [if_pos ended, if_pos (ended_iff.mpr ended)]
    exact ⟨rfl, position, total, room⟩
  · have inside := UInt64.not_le.mp (mt ended_iff.mp ended)
    have length := toNat_batchLength inside
    rw [position, total] at length
    have fits : counter.position.toNat + counter.batchLength.toNat < UInt64.size := by
      rw [position, length]
      rw [Word.width] at room ⊢
      omega
    rcases batchFrom_eq inputs fits with ⟨after, built, sum⟩
    rw [position, length] at built sum
    rw [if_neg ended, if_neg (mt ended_iff.mp ended), built]
    exact ⟨rfl, sum, total, room⟩

theorem Represents.answer {counter : ExhaustiveCounter} {source : ExhaustiveSource}
    (represents : counter.Represents source) (inputs calls : Nat) :
    Stimulus.answer inputs calls counter = Stimulus.answer inputs calls source := by
  induction calls generalizing counter source with
  | zero => exact (represents.next inputs).1
  | succ calls induction => exact induction (represents.next inputs).2

end ExhaustiveCounter

end AndInverter
