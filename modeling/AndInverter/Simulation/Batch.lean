import AndInverter.Word

namespace AndInverter

/-! Batches of input patterns. A batch packs up to thirty-two patterns: one word
an input, one lane a pattern, and zero in the lanes that no pattern fills. -/

structure Batch where
  words : List Word
  length : Nat
deriving DecidableEq, Repr

namespace Batch

def ofWords (words : List Word) (length : Nat) : Batch :=
  let meant := Word.lowest length
  ⟨words.map (· &&& meant), min length Word.width⟩

/-- Packs patterns that give one bit an input; a missing bit is low, and patterns
past the thirty-second are left out. -/
def ofPatterns (inputs : Nat) (patterns : List (List Bool)) : Batch :=
  let word input := Word.ofLanes fun lane => (patterns[lane]?.bind (·[input]?)).getD false
  ofWords ((List.range inputs).map word) patterns.length

def enter (lane : Nat) (words : List Word) (bits : List Bool) : List Word :=
  words.zipWith (fun word bit => if bit then word.mark lane else word) bits

def enterAll (lane : Nat) (words : List Word) : (patterns : List (List Bool)) → List Word
  | [] => words
  | bits :: others => enterAll (lane + 1) (enter lane words bits) others

def packed (inputs : Nat) (patterns : List (List Bool)) : Batch :=
  ofWords (enterAll 0 (List.replicate inputs 0#32) patterns) patterns.length

def isEmpty (batch : Batch) : Bool :=
  batch.length = 0

def bit (batch : Batch) (input pattern : Nat) : Bool :=
  (batch.words[input]?).any (·.lane pattern)

end Batch

end AndInverter
