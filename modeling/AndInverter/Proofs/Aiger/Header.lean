import AndInverter.Aiger.Reading
import AndInverter.Proofs.Text.Line

namespace AndInverter

/-! The header of a file. A header line is read, or it is refused for what it holds, with one
exception: where the numbers of inputs and gates have no sum in 64 bits, they overflow before
they are compared with the largest index. -/

/-- A file is refused for what it holds: a token is not as it should be, or stands for something
that is not read. -/
inductive Error.IsRefusal : Error → Prop
  | token (fault : TokenFault) : IsRefusal (.token fault)
  | unsupported (feature : Feature) : IsRefusal (.unsupported feature)

namespace Aiger

theorem number_eq_ok_iff {token : List Char} {value : Nat} :
    number token = .ok value ↔ Text.numeral? token = some value := by
  rw [number]
  cases Text.numeral? token <;> simp

theorem number_eq_error_iff {token : List Char} {failure : Error} :
    number token = .error failure ↔
      Text.numeral? token = none ∧ .token (.notNumber (String.ofList token)) = failure := by
  rw [number]
  cases Text.numeral? token <;> simp

theorem requiredLine_eq_ok_iff {bytes after : Text.Bytes} {line : List Char} :
    requiredLine bytes = .ok (line, after) ↔ Text.BeginsWith bytes line after := by
  rw [← Text.readLine_eq_line_iff, requiredLine]
  cases Text.readLine bytes <;> simp

namespace Header

/-- A line holds the word of the format and then numerals of these numbers, and nothing else. -/
def Gives (line : List Char) (numbers : List Nat) : Prop :=
  ∃ numerals, Text.words line = ['a', 'a', 'g'] :: numerals ∧
    numerals.map Text.numeral? = numbers.map some

variable {line : List Char} {largest inputs latches outputs gates : Nat}

theorem gives_iff {numbers : List Nat} :
    Gives line numbers ↔ (Text.words line).head? = some ['a', 'a', 'g'] ∧
      (Text.words line).tail.map Text.numeral? = numbers.map some := by
  rw [Gives]
  cases Text.words line with
  | nil => simp
  | cons format numerals =>
      simp only [List.cons.injEq, List.head?_cons, Option.some.injEq, List.tail_cons]
      constructor
      · rintro ⟨_, ⟨rfl, rfl⟩, read⟩
        exact ⟨rfl, read⟩
      · rintro ⟨rfl, read⟩
        exact ⟨_, ⟨rfl, rfl⟩, read⟩

instance (line : List Char) (numbers : List Nat) : Decidable (Gives line numbers) :=
  decidable_of_iff _ gives_iff.symm

theorem Gives.lt_size {numbers : List Nat} (gives : Gives line numbers) :
    ∀ number ∈ numbers, number < UInt64.size := by
  rcases gives with ⟨numerals, -, read⟩
  intro number member
  have given : some number ∈ numerals.map Text.numeral? := by
    rw [read]
    exact List.mem_map_of_mem member
  rcases List.mem_map.mp given with ⟨numeral, -, numeralRead⟩
  exact Text.numeral?_lt numeralRead

theorem Gives.ofLine_eq (gives : Gives line [largest, inputs, latches, outputs, gates]) :
    ofLine line =
      if 0 < latches then .error (.unsupported .latches)
      else if UInt64.size ≤ inputs + gates then .error .overflow
      else if largest < inputs + gates then
        .error (.token (.tooFewIndices largest (inputs + gates)))
      else .ok { largest, inputs, outputs, gates } := by
  rcases gives with ⟨numerals, words, read⟩
  rcases numerals with _ | ⟨first, _ | ⟨second, _ | ⟨third, _ | ⟨fourth, _ | ⟨fifth, _ |
    ⟨other, rest⟩⟩⟩⟩⟩⟩
  case cons.cons.cons.cons.cons.nil =>
    simp only [List.map_cons, List.map_nil, List.cons.injEq, and_true] at read
    rcases read with ⟨largestRead, inputsRead, latchesRead, outputsRead, gatesRead⟩
    rw [ofLine, words]
    simp only [number_eq_ok_iff.mpr largestRead, number_eq_ok_iff.mpr inputsRead,
      number_eq_ok_iff.mpr latchesRead, number_eq_ok_iff.mpr outputsRead,
      number_eq_ok_iff.mpr gatesRead, ne_eq, not_true_eq_false, if_false, gt_iff_lt]
    change (if 0 < latches then throw (Error.unsupported .latches) >>= _ else _) = _
    split_ifs <;> rfl
  all_goals simp at read

theorem of_ofLine_eq_error {failure : Error} (failed : ofLine line = .error failure) :
    failure.IsRefusal ∨ failure = .overflow ∧ ∃ largest inputs outputs gates,
      Gives line [largest, inputs, 0, outputs, gates] ∧ UInt64.size ≤ inputs + gates := by
  rw [ofLine] at failed
  split at failed
  · rename_i format largest inputs latches outputs gates others words
    simp only [Result.bind_eq_error_iff, Result.guard_bind_eq_error_iff, number_eq_ok_iff,
      number_eq_error_iff] at failed
    rcases failed with ⟨-, rfl⟩ | ⟨formatted, ⟨-, rfl⟩ | ⟨largest, largestRead, ⟨-, rfl⟩ |
      ⟨inputs, inputsRead, ⟨-, rfl⟩ | ⟨latches, latchesRead, ⟨-, rfl⟩ |
      ⟨outputs, outputsRead, ⟨-, rfl⟩ | ⟨gates, gatesRead, ⟨-, rfl⟩ | ⟨whole, ⟨-, rfl⟩ |
      ⟨noLatches, ⟨large, rfl⟩ | ⟨-, ⟨-, rfl⟩ | ⟨-, impossible⟩⟩⟩⟩⟩⟩⟩⟩⟩⟩
    all_goals try exact .inl (.token _)
    all_goals try exact .inl (.unsupported _)
    · simp only [Decidable.not_not] at formatted whole
      subst formatted whole
      have zero : latches = 0 := by omega
      subst zero
      refine .inr ⟨rfl, largest, inputs, outputs, gates, ⟨_, words, ?_⟩, large⟩
      simp [largestRead, inputsRead, latchesRead, outputsRead, gatesRead]
    · cases impossible
  · cases failed
    exact .inl (.token _)

theorem ofLine_eq_ok_iff {header : Header} :
    ofLine line = .ok header ↔
      Gives line [header.largest, header.inputs, 0, header.outputs, header.gates] ∧
        header.inputs + header.gates ≤ header.largest := by
  constructor
  · intro read
    rw [ofLine] at read
    split at read
    · rename_i format largest inputs latches outputs gates others words
      simp only [Result.bind_eq_ok_iff, Result.guard_bind_eq_ok_iff, Result.pure_eq_ok_iff,
        number_eq_ok_iff, Decidable.not_not] at read
      rcases read with ⟨rfl, largest, largestRead, inputs, inputsRead, latches, latchesRead,
        outputs, outputsRead, gates, gatesRead, rfl, noLatches, -, enough, rfl⟩
      have zero : latches = 0 := by omega
      subst zero
      exact ⟨⟨_, words, by simp [largestRead, inputsRead, latchesRead, outputsRead, gatesRead]⟩,
        by simpa using enough⟩
    · cases read
  · rintro ⟨gives, enough⟩
    have small := gives.lt_size header.largest List.mem_cons_self
    rw [gives.ofLine_eq, if_neg (Nat.lt_irrefl 0), if_neg (by omega), if_neg (by omega)]

theorem read_eq_error_of_ofLine {bytes after : Text.Bytes} {failure : Error}
    (begins : Text.BeginsWith bytes line after) (failed : ofLine line = .error failure) :
    read bytes = .error failure := by
  rw [read, requiredLine_eq_ok_iff.mpr begins]
  refine Result.bind_eq_error_iff.mpr (.inr ⟨(line, after), rfl, ?_⟩)
  exact Result.bind_eq_error_iff.mpr (.inl failed)

theorem read_eq_error_of_reserve {bytes after : Text.Bytes} {header : Header} {failure : Error}
    (begins : Text.BeginsWith bytes line after) (headed : ofLine line = .ok header)
    (full : Graph.empty.reserve header.largest = .error failure) : read bytes = .error failure := by
  rw [read, requiredLine_eq_ok_iff.mpr begins]
  refine Result.bind_eq_error_iff.mpr (.inr ⟨(line, after), rfl, ?_⟩)
  refine Result.bind_eq_error_iff.mpr (.inr ⟨header, headed, ?_⟩)
  exact Result.bind_eq_error_iff.mpr (.inl full)

/-- What becomes of a header line. It is read exactly if it gives five numbers, no latches among
them, and the inputs and the gates are not more than the largest index; else it is refused for
what it holds, or the inputs and the gates have no sum in 64 bits. Such a sum fails whatever the
largest index is, and one that fits is refused if it is more than the largest index. A file fails
as its first line does; if that is read, making room fails for the greatest of all indices
only, memory being taken as unlimited (`Graph.reserve`). -/
theorem ofLine_outcomes (line : List Char) :
    (∀ header, ofLine line = .ok header ↔
      Gives line [header.largest, header.inputs, 0, header.outputs, header.gates] ∧
        header.inputs + header.gates ≤ header.largest) ∧
    (∀ failure, ofLine line = .error failure →
      failure.IsRefusal ∨ failure = .overflow ∧ ∃ largest inputs outputs gates,
        Gives line [largest, inputs, 0, outputs, gates] ∧ UInt64.size ≤ inputs + gates) ∧
    (∀ largest inputs latches outputs gates,
      Gives line [largest, inputs, latches, outputs, gates] →
        (0 < latches → ofLine line = .error (.unsupported .latches)) ∧
        (latches = 0 → UInt64.size ≤ inputs + gates → ofLine line = .error .overflow) ∧
        (latches = 0 → inputs + gates < UInt64.size → largest < inputs + gates →
          ofLine line = .error (.token (.tooFewIndices largest (inputs + gates))))) ∧
    ∀ bytes after, Text.BeginsWith bytes line after →
      (∀ failure, ofLine line = .error failure → read bytes = .error failure) ∧
      ∀ header, ofLine line = .ok header →
        (header.largest + 1 = UInt64.size → read bytes = .error .overflow) ∧
        (header.largest + 1 < UInt64.size →
          ∃ reserved, Graph.empty.reserve header.largest = .ok reserved) := by
  refine ⟨fun header => ofLine_eq_ok_iff, fun failure => of_ofLine_eq_error, ?_, ?_⟩
  · intro largest inputs latches outputs gates gives
    rw [gives.ofLine_eq]
    refine ⟨fun some => if_pos some, ?_, ?_⟩
    · rintro rfl large
      rw [if_neg (Nat.lt_irrefl 0), if_pos large]
    · rintro rfl fits few
      rw [if_neg (Nat.lt_irrefl 0), if_neg (Nat.not_le.mpr fits), if_pos few]
  · intro bytes after begins
    refine ⟨fun failure => read_eq_error_of_ofLine begins, fun header headed => ?_⟩
    refine ⟨fun greatest => ?_, fun small => ⟨_, if_neg (Nat.not_le.mpr small)⟩⟩
    have full : Graph.empty.reserve header.largest = .error .overflow :=
      if_pos (Nat.le_of_eq greatest.symm)
    exact read_eq_error_of_reserve begins headed full

/-- The greatest sum that fits is compared with the largest index, and the next one overflows. -/
theorem ofLine_outcomes_sample :
    ofLine "aag 3 2 0 1 1".toList = .ok ⟨3, 2, 1, 1⟩ ∧
      ofLine "aag 3 18446744073709551614 0 1 1".toList =
        .error (.token (.tooFewIndices 3 18446744073709551615)) ∧
      ofLine "aag 3 18446744073709551615 0 1 1".toList = .error .overflow := by
  have small := ofLine_outcomes "aag 3 2 0 1 1".toList
  have few := ofLine_outcomes "aag 3 18446744073709551614 0 1 1".toList
  have large := ofLine_outcomes "aag 3 18446744073709551615 0 1 1".toList
  exact ⟨(small.1 _).mpr ⟨by decide, by decide⟩,
    (few.2.2.1 3 18446744073709551614 0 1 1 (by decide)).2.2 rfl (by decide) (by decide),
    (large.2.2.1 3 18446744073709551615 0 1 1 (by decide)).2.1 rfl (by decide)⟩

/-- Such a sum is more than any largest index, and yet the line is neither read nor refused for
what it holds. -/
theorem ofLine_overflow :
    let line := "aag 0 18446744073709551615 0 0 1".toList
    Gives line [0, 18446744073709551615, 0, 0, 1] ∧ ofLine line = .error .overflow ∧
      ¬((∃ header, ofLine line = .ok header) ∨
        ∃ failure, ofLine line = .error failure ∧ failure.IsRefusal) := by
  intro line
  have gives : Gives line [0, 18446744073709551615, 0, 0, 1] := by decide
  have failed : ofLine line = .error .overflow := gives.ofLine_eq
  refine ⟨gives, failed, ?_⟩
  rintro (⟨header, headed⟩ | ⟨failure, other, refusal⟩)
  · cases headed.symm.trans failed
  · cases other.symm.trans failed
    cases refusal

end Header

end Aiger

end AndInverter
