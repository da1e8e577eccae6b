import AndInverter.Partition
import AndInverter.Passes.Sweep
import AndInverter.Simulation.Evaluation
import AndInverter.Simulation.Stimulus

namespace AndInverter

/-! Simulation sessions. A session sweeps the graph, starts from one candidate
class, and refines the classes by each batch of its source. When the source is
exhausted, the words of the last batch and the classes are recorded in the graph. -/

inductive PatternLog
  | absent
  | unlimited
  | limited (lines : Nat)
deriving DecidableEq, Repr

namespace PatternLog

def write (lines : List String) : PatternLog → List String × Option PatternLog
  | .absent => ([], some .absent)
  | .unlimited => (lines, some .unlimited)
  | .limited room =>
      if lines.length ≤ room then (lines, some (.limited (room - lines.length)))
      else (lines.take room, none)

end PatternLog

def Words.digits (words : Words) (ids : List Nat) (lane : Nat) : String :=
  String.ofList (ids.map fun id => if (words.ofNode id).lane lane then '1' else '0')

def Graph.logLines (graph : Graph) (batch : Batch) (words : Words) : List String :=
  (List.range batch.length).map fun lane =>
    words.digits graph.inputs lane ++ " " ++ words.digits graph.outputs lane

structure SessionReport where
  patterns : Nat
  batches : Nat
  classes : Nat
deriving DecidableEq, Repr

structure Simulated where
  partition : Partition
  words : Words
  log : List String
  journal : Journal
  patterns : Nat
  batches : Nat
  failure : Option Error

namespace Graph

/-- Simulates the batches of a source in order, the first one being batch
`number`. The classes are refined by a batch before its lines are written; the
first line that is refused stops the simulation. -/
def simulateAll {Source : Type} [Stimulus Source] (graph : Graph) (order : List Nat)
    (number : Nat) (log : PatternLog) (partition : Partition) (words : Words)
    (source : Source) : Simulated :=
  match _ : Stimulus.next graph.inputs.length source with
  | (.error failure, _) => ⟨partition, words, [], [], 0, 0, some failure⟩
  | (.ok none, _) => ⟨partition, words, [], [], 0, 0, none⟩
  | (.ok (some batch), after) =>
      let words := graph.simulate order batch words
      let refined := partition.refine words
      let note := Entry.note (.refined (partition.evictions words) refined.classes.length)
      match log.write (if log = .absent then [] else graph.logLines batch words) with
      | (lines, none) => ⟨refined, words, lines, [note], 0, 0, some (.stream .logFull)⟩
      | (lines, some log) =>
          let rest := simulateAll graph order (number + 1) log refined words after
          let done := Entry.note
            (.simulatedBatch number batch.length refined.classes.length)
          { rest with
            log := lines ++ rest.log
            journal := note :: done :: rest.journal
            patterns := batch.length + rest.patterns
            batches := rest.batches + 1 }
termination_by Stimulus.remaining source
decreasing_by exact Stimulus.remaining_lt (by assumption)

def recordSignatures (ids : List Nat) (words : Words) (graph : Graph) : Graph :=
  ids.foldl
    (fun graph id => graph.modify id fun node => { node with signature := words.ofNode id }) graph

end Graph

structure Session where
  graph : Graph
  partition : Partition
  words : Words
  log : List String
  journal : Journal
  result : Result SessionReport

/-- Runs a session on a graph. A failure leaves the graph swept, with nothing
recorded, and the classes as they are by then. -/
def Session.run {Source : Type} [Stimulus Source] (graph : Graph) (source : Source)
    (log : PatternLog) : Session :=
  let swept := graph.sweep
  let order := swept.order
  let simulated := swept.simulateAll order 1 log (.initial swept) (.zeros swept.size) source
  let journal := (Journal.ofSweep graph).silenced ++ simulated.journal
  match simulated.failure with
  | some failure =>
      { graph := swept, partition := simulated.partition, words := simulated.words,
        log := simulated.log, journal, result := .error failure }
  | none =>
      let partition := simulated.partition.sorted
      let signed := swept.recordSignatures (order ++ swept.inputs) simulated.words
      let (recorded, outcome) := partition.recordIn signed
      let report := ⟨simulated.patterns, simulated.batches, partition.classes.length⟩
      { graph := recorded, partition, words := simulated.words, log := simulated.log,
        journal := match outcome with
          | .ok () => journal ++ [.note (.simulated simulated.patterns)]
          | .error _ => journal
        result := outcome.map fun _ => report }

end AndInverter
