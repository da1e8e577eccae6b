import AndInverter.Simulation.Patterns
import AndInverter.Simulation.Session
import AndInverter.Simulation.Sources

namespace AndInverter

/-! Sessions on made-up patterns and on patterns from a text. -/

structure SimulationOptions where
  minPatterns : Nat := 2000
  maxPatterns : Nat := 5000
  /-- circuits with at most so many inputs see every pattern instead -/
  exhaustiveInputs : Nat := 10
  seed : UInt64 := 0
deriving DecidableEq, Repr

namespace SimulationOptions

/-- The number of random patterns for a circuit: ten times the square root of its
size less than the most, but at least the least. The root is taken in double
precision and the product rounded down. -/
def sessionLength (size : Nat) (options : SimulationOptions) : Nat :=
  let shrink := (10.0 * size.toUInt64.toFloat.sqrt).toUInt64.toNat
  max (options.maxPatterns - shrink) options.minPatterns

end SimulationOptions

def Session.madeUp (graph : Graph) (options : SimulationOptions) (log : PatternLog) : Session :=
  let inputs := graph.inputs.length
  if inputs ≤ options.exhaustiveInputs then
    .run graph (ExhaustiveSource.ofInputs inputs) log
  else
    .run graph (RandomSource.ofSeed options.seed (options.sessionLength graph.size)) log

def Session.ofText (graph : Graph) (text : Text.Bytes) (log : PatternLog) : Session :=
  .run graph (PatternSource.ofBytes text) log

end AndInverter
