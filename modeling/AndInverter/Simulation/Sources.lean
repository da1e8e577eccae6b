import AndInverter.Simulation.Stimulus
import AndInverter.Simulation.Xoshiro

namespace AndInverter

/-! Sources that make up their patterns: random ones, all of them in order, and
given ones. -/

structure RandomSource where
  generator : Xoshiro
  patterns : Nat
deriving DecidableEq, Repr

namespace RandomSource

def ofSeed (seed : UInt64) (patterns : Nat) : RandomSource :=
  ⟨.ofSeed seed, patterns⟩

/-- A full batch, or what is left. One word is drawn an input, in order, even for
a batch that is not full. -/
def next (inputs : Nat) (source : RandomSource) : Result (Option Batch) × RandomSource :=
  if source.patterns = 0 then (.ok none, source)
  else
    let length := min source.patterns Word.width
    let (words, generator) := source.generator.nextWords inputs
    (.ok (some (.ofWords words length)), ⟨generator, source.patterns - length⟩)

instance : Stimulus RandomSource where
  next := next
  remaining source := source.patterns
  remaining_lt := by
    intro inputs source after batch asked
    unfold next at asked
    split at asked
    · simp at asked
    · simp only [Prod.mk.injEq] at asked
      rw [← asked.2]
      simp only [Word.width]
      omega

end RandomSource

structure ExhaustiveSource where
  position : Nat
  total : Nat
deriving DecidableEq, Repr

namespace ExhaustiveSource

/-- All assignments of a number of inputs. Past sixty-three inputs, only the
lowest sixty-three take part. -/
def ofInputs (inputs : Nat) : ExhaustiveSource :=
  ⟨0, 1 <<< min inputs 63⟩

def stripes : List Word :=
  (List.range 5).map fun input => .ofLanes fun lane => lane.testBit input

/-- The word of an input in a batch that begins with a given pattern. Where batches begin
at multiples of their width, the lowest inputs have the same words in all of them, and
the others do not change inside a batch. -/
def word (position input : Nat) : Word :=
  if position % 32 = 0 then stripes[input]?.getD (.fill (position.testBit input))
  else .ofLanes fun lane => (position + lane).testBit input

theorem lane_word (position input lane : Nat) :
    (word position input).lane lane =
      (decide (lane < 32) && (position + lane).testBit input) := by
  unfold word
  split
  · rename_i aligned
    obtain ⟨batch, rfl⟩ := Nat.dvd_of_mod_eq_zero aligned
    by_cases inside : lane < 32
    · have sum : 32 * batch + lane = 2 ^ 5 * batch + lane := rfl
      rw [sum, Nat.testBit_two_pow_mul_add batch inside]
      by_cases low : input < 5
      · simp [stripes, low, inside]
      · simp [stripes, low, inside, show 32 * batch = 2 ^ 5 * batch from rfl,
          Nat.testBit_two_pow_mul, Nat.le_of_not_lt low]
    · by_cases low : input < 5
      · simp [stripes, low, inside]
      · simp [stripes, low, inside]
  · rw [Word.lane_ofLanes]

def next (inputs : Nat) (source : ExhaustiveSource) : Result (Option Batch) × ExhaustiveSource :=
  if source.total ≤ source.position then (.ok none, source)
  else
    let length := min (source.total - source.position) Word.width
    let words := (List.range inputs).map (word source.position)
    (.ok (some (.ofWords words length)), { source with position := source.position + length })

instance : Stimulus ExhaustiveSource where
  next := next
  remaining source := source.total - source.position
  remaining_lt := by
    intro inputs source after batch asked
    unfold next at asked
    split at asked
    · simp at asked
    · simp only [Prod.mk.injEq] at asked
      rw [← asked.2]
      simp only [Word.width]
      omega

end ExhaustiveSource

structure ListedSource where
  batches : List Batch
  failure : Option Error
deriving DecidableEq, Repr

namespace ListedSource

def next (_inputs : Nat) (source : ListedSource) : Result (Option Batch) × ListedSource :=
  match source.batches, source.failure with
  | batch :: others, _ => (.ok (some batch), { source with batches := others })
  | [], some failure => (.error failure, source)
  | [], none => (.ok none, source)

instance : Stimulus ListedSource where
  next := next
  remaining source := source.batches.length
  remaining_lt := by
    intro inputs source after batch asked
    unfold next at asked
    split at asked
    · rename_i batches_eq
      simp only [Prod.mk.injEq] at asked
      rw [← asked.2, batches_eq]
      exact Nat.lt_succ_self _
    · simp at asked
    · simp at asked

end ListedSource

end AndInverter
