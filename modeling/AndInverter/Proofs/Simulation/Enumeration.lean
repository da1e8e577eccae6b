import AndInverter.Proofs.Simulation.Counter
import AndInverter.Proofs.Simulation.Stopping
import AndInverter.Simulation.Options

namespace AndInverter

/-! The patterns of an exhaustive source. Its batches begin at the multiples of their width, and
lane by lane they hold the bits of the numbers below the number of all assignments, each of them
once. -/

/-! ## Sources by their answers -/

theorem Feed.ofStimulus_of_answers {Source : Type} [Stimulus Source] {inputs count : Nat}
    {batches : Nat → Batch} {source : Source}
    (delivered : ∀ calls < count, Stimulus.answer inputs calls source = .ok (some (batches calls)))
    (exhausted : Stimulus.answer inputs count source = .ok none) :
    ofStimulus inputs source = ⟨(List.range count).map batches, none⟩ := by
  induction count generalizing source batches with
  | zero =>
      have last : (Stimulus.next inputs source).1 = .ok none := exhausted
      rcases asked : Stimulus.next inputs source with ⟨answer, after⟩
      rw [asked] at last
      rw [ofStimulus_eq, asked, show answer = .ok none from last]
      rfl
  | succ count induction =>
      have first : (Stimulus.next inputs source).1 = .ok (some (batches 0)) :=
        delivered 0 (Nat.succ_pos count)
      have rest : ofStimulus inputs (Stimulus.next inputs source).2 =
          ⟨(List.range count).map fun calls => batches (calls + 1), none⟩ :=
        induction (fun calls inside => delivered (calls + 1) (Nat.succ_lt_succ inside)) exhausted
      rcases asked : Stimulus.next inputs source with ⟨answer, after⟩
      rw [asked] at first rest
      rw [ofStimulus_eq, asked, show answer = .ok (some (batches 0)) from first]
      simp only [rest, List.range_succ_eq_map, List.map_cons, List.map_map, Function.comp_def]

namespace ExhaustiveSource

variable {inputs calls : Nat}

/-! ## Batches -/

def batchCount (inputs : Nat) : Nat :=
  max 1 (2 ^ inputs / Word.width)

def batchAt (inputs calls : Nat) : Batch :=
  .ofWords ((List.range inputs).map (word (Word.width * calls)))
    (min (2 ^ inputs - Word.width * calls) Word.width)

def stateAt (inputs calls : Nat) : ExhaustiveSource :=
  ⟨min (Word.width * calls) (2 ^ inputs), 2 ^ inputs⟩

theorem width_dvd_or_lt (inputs : Nat) : Word.width ∣ 2 ^ inputs ∨ 2 ^ inputs < Word.width := by
  rcases Nat.lt_or_ge inputs 5 with few | many
  · exact .inr (Nat.pow_lt_pow_right (by decide) few)
  · exact .inl (Nat.pow_dvd_pow 2 many)

theorem lt_batchCount_iff : calls < batchCount inputs ↔ Word.width * calls < 2 ^ inputs := by
  have positive := Nat.two_pow_pos inputs
  rcases width_dvd_or_lt inputs with ⟨count, total⟩ | small
  · simp only [batchCount, Word.width] at *
    omega
  · simp only [batchCount, Word.width] at *
    omega

theorem length_batchAt (inside : calls < batchCount inputs) :
    (batchAt inputs calls).length = min (2 ^ inputs) Word.width := by
  rw [batchAt, Batch.ofWords]
  rw [lt_batchCount_iff] at inside
  rcases width_dvd_or_lt inputs with ⟨count, total⟩ | small
  · simp only [Word.width] at *
    omega
  · simp only [Word.width] at *
    omega

theorem patterns_batchAt (inputs : Nat) :
    Feed.patterns ((List.range (batchCount inputs)).map (batchAt inputs)) = 2 ^ inputs := by
  have same : ((List.range (batchCount inputs)).map (batchAt inputs)).map Batch.length =
      List.replicate (batchCount inputs) (min (2 ^ inputs) Word.width) := by
    rw [List.eq_replicate_iff]
    refine ⟨by simp, fun length member => ?_⟩
    simp only [List.map_map, List.mem_map, List.mem_range, Function.comp_apply] at member
    rcases member with ⟨calls, inside, rfl⟩
    exact length_batchAt inside
  rw [Feed.patterns, same, List.sum_replicate_nat, batchCount]
  rcases width_dvd_or_lt inputs with ⟨count, total⟩ | small
  · have positive := Nat.two_pow_pos inputs
    simp only [Word.width] at *
    rw [Nat.max_eq_right (by omega), Nat.min_eq_right (by omega)]
    omega
  · rw [Nat.div_eq_of_lt small, Nat.max_eq_left (Nat.zero_le 1), Nat.one_mul,
      Nat.min_eq_left (Nat.le_of_lt small)]

theorem bit_batchAt {input lane : Nat} (inputInside : input < inputs) :
    (batchAt inputs calls).bit input lane =
      (decide (lane < (batchAt inputs calls).length) &&
        (Word.width * calls + lane).testBit input) := by
  have length : (batchAt inputs calls).length = min (2 ^ inputs - 32 * calls) 32 := by
    simp [batchAt, Batch.ofWords, Word.width]
  rw [length, Bool.eq_iff_iff]
  simp only [Batch.bit, batchAt, Batch.ofWords, List.map_map, List.getElem?_map,
    List.getElem?_range inputInside, Option.map_some, Option.any_some, Function.comp_apply,
    Word.lane_and, lane_word, Word.lane_lowest, Bool.and_eq_true, decide_eq_true_eq, Word.width]
  constructor
  · rintro ⟨⟨-, high⟩, room, meant⟩
    exact ⟨by omega, high⟩
  · rintro ⟨meant, high⟩
    exact ⟨⟨by omega, high⟩, by omega, by omega⟩

theorem lane_of_mem_batchAt {held : Word} (member : held ∈ (batchAt inputs calls).words)
    {lane : Nat} (past : (batchAt inputs calls).length ≤ lane) : held.lane lane = false := by
  simp only [batchAt, Batch.ofWords, List.mem_map] at member past
  rcases member with ⟨whole, -, rfl⟩
  rw [Word.lane_and, Word.lane_lowest, Bool.and_eq_false_iff]
  right
  simp only [Bool.and_eq_false_iff, decide_eq_false_iff_not]
  omega

@[simp] theorem length_words_batchAt (inputs calls : Nat) :
    (batchAt inputs calls).words.length = inputs := by
  simp [batchAt, Batch.ofWords]

/-! ## Calls -/

def answerAt (inputs calls : Nat) : Option Batch :=
  if calls < batchCount inputs then some (batchAt inputs calls) else none

theorem next_stateAt (inputs calls : Nat) :
    next inputs (stateAt inputs calls) =
      (.ok (answerAt inputs calls), stateAt inputs (calls + 1)) := by
  rw [answerAt, next, stateAt]
  by_cases inside : calls < batchCount inputs
  · have before := lt_batchCount_iff.mp inside
    have position : min (Word.width * calls) (2 ^ inputs) = Word.width * calls :=
      Nat.min_eq_left (Nat.le_of_lt before)
    have after : Word.width * calls + min (2 ^ inputs - Word.width * calls) Word.width =
        min (Word.width * (calls + 1)) (2 ^ inputs) := by
      rw [Nat.mul_succ]
      omega
    simp only [position, if_neg (Nat.not_le.mpr before), if_pos inside, after, batchAt, stateAt]
  · have past := Nat.le_of_not_lt (mt lt_batchCount_iff.mpr inside)
    have later : min (Word.width * (calls + 1)) (2 ^ inputs) = 2 ^ inputs := by
      rw [Nat.mul_succ]
      omega
    simp only [Nat.min_eq_right past, Nat.le_refl, if_true, if_neg inside, stateAt, later]

theorem answer_stateAt (inputs start calls : Nat) :
    Stimulus.answer inputs calls (stateAt inputs start) =
      .ok (answerAt inputs (start + calls)) := by
  induction calls generalizing start with
  | zero => exact congrArg Prod.fst (next_stateAt inputs start)
  | succ calls induction =>
      have step : (Stimulus.next inputs (stateAt inputs start)).2 = stateAt inputs (start + 1) :=
        congrArg Prod.snd (next_stateAt inputs start)
      rw [Stimulus.answer, step, induction, Nat.add_right_comm]
      rfl

theorem ofInputs_eq_stateAt (few : inputs ≤ 63) : ofInputs inputs = stateAt inputs 0 := by
  rw [ofInputs, stateAt, Nat.min_eq_left few, Nat.one_shiftLeft, Nat.mul_zero, Nat.zero_min]

theorem answer_ofInputs (few : inputs ≤ 63) (calls : Nat) :
    Stimulus.answer inputs calls (ofInputs inputs) = .ok (answerAt inputs calls) := by
  rw [ofInputs_eq_stateAt few, answer_stateAt, Nat.zero_add]

theorem feed_ofInputs_eq (few : inputs ≤ 63) :
    Feed.ofStimulus inputs (ofInputs inputs) =
      ⟨(List.range (batchCount inputs)).map (batchAt inputs), none⟩ := by
  apply Feed.ofStimulus_of_answers
  · intro calls inside
    rw [answer_ofInputs few, answerAt, if_pos inside]
  · rw [answer_ofInputs few, answerAt, if_neg (Nat.lt_irrefl _)]

/-! ## Sessions -/

variable {graph : Graph} {options : SimulationOptions}

theorem madeUp_eq_run (exhaustive : graph.inputs.length ≤ options.exhaustiveInputs)
    (log : PatternLog) :
    Session.madeUp graph options log = .run graph (ofInputs graph.inputs.length) log := by
  rw [Session.madeUp, if_pos exhaustive]

theorem madeUp_counts (few : graph.inputs.length ≤ 63)
    (exhaustive : graph.inputs.length ≤ options.exhaustiveInputs) (log : PatternLog) :
    (∀ report, (Session.madeUp graph options log).result = .ok report →
      report.patterns = 2 ^ graph.inputs.length ∧
        report.batches = batchCount graph.inputs.length) ∧
      (graph.WellFormed → log.HasRoom (2 ^ graph.inputs.length) →
        ∃ report, (Session.madeUp graph options log).result = .ok report) := by
  have feed := feed_ofInputs_eq few
  rw [madeUp_eq_run exhaustive]
  refine ⟨fun report success => ?_, fun wellFormed room => ?_⟩
  · have counts := Session.report_counts success
    rw [feed] at counts
    exact ⟨counts.1.trans (patterns_batchAt _), counts.2.trans (by simp)⟩
  · apply Session.exists_report_of_hasRoom wellFormed feed
    rwa [patterns_batchAt]

/-- An exhaustive source for up to sixty-three inputs shows every assignment once. It delivers so
many batches and then nothing any more; every batch is full of patterns or the only one, its
lanes past the last pattern are low, and each number below the number of assignments has its bits
in its lane of its batch. Counted in words of sixty-four bits, all answers are the same: no sum
fails. So a session on such a source counts all assignments. -/
theorem enumerates_assignments {inputs : Nat} (few : inputs ≤ 63) :
    (∀ calls, max 1 (2 ^ inputs / 32) ≤ calls →
      Stimulus.answer inputs calls (ofInputs inputs) = .ok none) ∧
    (∀ calls < max 1 (2 ^ inputs / 32), ∃ batch,
      Stimulus.answer inputs calls (ofInputs inputs) = .ok (some batch) ∧
        batch.isEmpty = false ∧ batch.length = min (2 ^ inputs) 32 ∧
          batch.words.length = inputs ∧
            ∀ word ∈ batch.words, ∀ lane, batch.length ≤ lane → word.lane lane = false) ∧
    (∀ pattern < 2 ^ inputs, ∃ batch,
      Stimulus.answer inputs (pattern / 32) (ofInputs inputs) = .ok (some batch) ∧
        pattern % 32 < batch.length ∧
          ∀ input < inputs, batch.bit input (pattern % 32) = pattern.testBit input) ∧
    (∀ calls, Stimulus.answer inputs calls (ExhaustiveCounter.ofInputs inputs) =
      Stimulus.answer inputs calls (ofInputs inputs)) ∧
    ∀ (graph : Graph) (options : SimulationOptions) (log : PatternLog),
      graph.inputs.length = inputs → inputs ≤ options.exhaustiveInputs →
        (∀ report, (Session.madeUp graph options log).result = .ok report →
          report.patterns = 2 ^ inputs) ∧
        (graph.WellFormed → log.HasRoom (2 ^ inputs) →
          ∃ report, (Session.madeUp graph options log).result = .ok report) := by
  have delivered : ∀ calls < batchCount inputs,
      Stimulus.answer inputs calls (ofInputs inputs) = .ok (some (batchAt inputs calls)) := by
    intro calls inside
    rw [answer_ofInputs few, answerAt, if_pos inside]
  refine ⟨fun calls past => ?_, fun calls inside => ?_, fun pattern inside => ?_,
    (ExhaustiveCounter.represents_ofInputs inputs).answer inputs, ?_⟩
  · have exhausted : ¬calls < batchCount inputs := Nat.not_lt.mpr past
    rw [answer_ofInputs few, answerAt, if_neg exhausted]
  · have length := length_batchAt inside
    have positive : 0 < min (2 ^ inputs) Word.width :=
      Nat.lt_min.mpr ⟨Nat.two_pow_pos inputs, by decide⟩
    refine ⟨batchAt inputs calls, delivered calls inside, ?_, length, length_words_batchAt _ _,
      fun word member lane past => lane_of_mem_batchAt member past⟩
    simp only [Batch.isEmpty, decide_eq_false_iff_not]
    omega
  · have before : Word.width * (pattern / 32) < 2 ^ inputs :=
      Nat.lt_of_le_of_lt (Nat.mul_div_le _ _) inside
    have early := lt_batchCount_iff.mpr before
    have lane : pattern % 32 < (batchAt inputs (pattern / 32)).length := by
      have length := length_batchAt early
      have small := Nat.mod_le pattern 32
      simp only [Word.width] at length
      omega
    refine ⟨_, delivered _ early, lane, fun input inputInside => ?_⟩
    rw [bit_batchAt inputInside, decide_eq_true lane, Bool.true_and, Word.width,
      Nat.div_add_mod]
  · rintro graph options log rfl exhaustive
    have counts := madeUp_counts few exhaustive log
    exact ⟨fun report success => (counts.1 report success).1, counts.2⟩

/-- The last pattern of sixty-three inputs has all bits, and a session on two inputs counts four
patterns. -/
theorem enumerates_assignments_sample :
    (∃ batch, Stimulus.answer 63 ((2 ^ 63 - 1) / 32) (ofInputs 63) = .ok (some batch) ∧
      ∀ input < 63, batch.bit input 31 = true) ∧
      ∃ report, (Session.madeUp Graph.twins {} .absent).result = .ok report ∧
        report.patterns = 4 := by
  constructor
  · rcases (enumerates_assignments (Nat.le_refl 63)).2.2.1 (2 ^ 63 - 1) (by decide) with
      ⟨batch, answered, -, bits⟩
    refine ⟨batch, answered, fun input inside => ?_⟩
    rw [show 31 = (2 ^ 63 - 1) % 32 from rfl, bits input inside, Nat.testBit_two_pow_sub_one,
      decide_eq_true inside]
  · have counts := (enumerates_assignments (show 2 ≤ 63 by decide)).2.2.2.2 Graph.twins {} .absent
      rfl (by decide)
    rcases counts.2 Graph.consistent_twins.toWellFormed trivial with ⟨report, success⟩
    exact ⟨report, success, counts.1 report success⟩

end ExhaustiveSource

end AndInverter
