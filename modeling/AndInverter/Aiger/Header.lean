import AndInverter.Error
import AndInverter.Text.Blank
import AndInverter.Text.Numeral

namespace AndInverter.Aiger

/-! The header of a circuit file in the ASCII AIGER format: the word "aag", then
the largest index, and the numbers of inputs, latches, outputs and gates. Circuits
with latches are not read. -/

structure Header where
  largest : Nat
  inputs : Nat
  outputs : Nat
  gates : Nat
deriving DecidableEq, Repr

def number (token : List Char) : Result Nat :=
  match Text.numeral? token with
  | some value => .ok value
  | none => .error (.token (.notNumber (String.ofList token)))

/-- Reads the header line. The inputs and the gates are counted together in 64
bits, and must not be more than the largest index. -/
def Header.ofLine (line : List Char) : Result Header :=
  match Text.words line with
  | format :: largest :: inputs :: latches :: outputs :: gates :: others => do
      if format ≠ ['a', 'a', 'g'] then throw (.token (.otherFormat (String.ofList format)))
      let largest ← number largest
      let inputs ← number inputs
      let latches ← number latches
      let outputs ← number outputs
      let gates ← number gates
      if others ≠ [] then throw (.unsupported .longHeader)
      if latches > 0 then throw (.unsupported .latches)
      if UInt64.size ≤ inputs + gates then throw .overflow
      if largest < inputs + gates then throw (.token (.tooFewIndices largest (inputs + gates)))
      return { largest, inputs, outputs, gates }
  | _ => .error (.token .shortHeader)

end AndInverter.Aiger
