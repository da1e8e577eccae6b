import AndInverter.Word

namespace AndInverter

/-! A source of reproducible random words: the generator xoshiro256++, whose four
state words are the first four numbers of SplitMix64. All arithmetic is on 64-bit
words. -/

structure Xoshiro where
  first : UInt64
  second : UInt64
  third : UInt64
  fourth : UInt64
deriving DecidableEq, Repr

namespace Xoshiro

def splitMix (state : UInt64) : UInt64 :=
  let mixed := (state ^^^ (state >>> 30)) * 0xbf58476d1ce4e5b9
  let mixed := (mixed ^^^ (mixed >>> 27)) * 0x94d049bb133111eb
  mixed ^^^ (mixed >>> 31)

def ofSeed (seed : UInt64) : Xoshiro :=
  let step : UInt64 := 0x9e3779b97f4a7c15
  let state count := seed + count * step
  ⟨splitMix (state 1), splitMix (state 2), splitMix (state 3), splitMix (state 4)⟩

def rotateLeft (number : UInt64) (count : UInt64) : UInt64 :=
  (number <<< count) ||| (number >>> (64 - count))

def next (generator : Xoshiro) : UInt64 × Xoshiro :=
  let number := rotateLeft (generator.first + generator.fourth) 23 + generator.first
  let shifted := generator.second <<< 17
  let third := generator.third ^^^ generator.first
  let fourth := generator.fourth ^^^ generator.second
  (number,
    { first := generator.first ^^^ fourth
      second := generator.second ^^^ third
      third := third ^^^ shifted
      fourth := rotateLeft fourth 45 })

def nextWord (generator : Xoshiro) : Word × Xoshiro :=
  let (number, after) := generator.next
  ((number >>> 32).toBitVec.setWidth 32, after)

def nextWords (generator : Xoshiro) : (count : Nat) → List Word × Xoshiro
  | 0 => ([], generator)
  | count + 1 =>
      let (word, after) := generator.nextWord
      let (words, last) := nextWords after count
      (word :: words, last)

end Xoshiro

end AndInverter
