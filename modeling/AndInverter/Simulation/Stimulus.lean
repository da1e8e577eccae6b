import AndInverter.Error
import AndInverter.Simulation.Batch

namespace AndInverter

/-! Stimuli: sources of batches. A source is asked for one batch after another,
each time with the number of inputs that the batch is for. It answers with a
batch, with nothing when it is exhausted, or with a failure. -/

class Stimulus (Source : Type) where
  next : (inputs : Nat) → Source → Result (Option Batch) × Source
  /-- a bound on the batches that are still to come -/
  remaining : Source → Nat
  remaining_lt : ∀ {inputs : Nat} {source after : Source} {batch : Batch},
    next inputs source = (.ok (some batch), after) → remaining after < remaining source

/-- What a source answers when it was called so many times before, each time for the same number
of inputs. -/
def Stimulus.answer {Source : Type} [Stimulus Source] (inputs : Nat) :
    (calls : Nat) → Source → Result (Option Batch)
  | 0, source => (next inputs source).1
  | calls + 1, source => answer inputs calls (next inputs source).2

/-- All that a source delivers: batches, and a failure if it does not end by
exhaustion. -/
structure Feed where
  batches : List Batch
  failure : Option Error
deriving DecidableEq, Repr

def Feed.ofStimulus {Source : Type} [Stimulus Source] (inputs : Nat) (source : Source) : Feed :=
  match _ : Stimulus.next inputs source with
  | (.ok none, _) => ⟨[], none⟩
  | (.error failure, _) => ⟨[], some failure⟩
  | (.ok (some batch), after) =>
      let rest := ofStimulus inputs after
      { rest with batches := batch :: rest.batches }
termination_by Stimulus.remaining source
decreasing_by exact Stimulus.remaining_lt (by assumption)

end AndInverter
