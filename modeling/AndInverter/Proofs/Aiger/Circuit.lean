import AndInverter.Aiger.Section
import AndInverter.Proofs.Graph.Growth
import AndInverter.Proofs.Text.Line
import AndInverter.Proofs.Text.Words
import Mathlib.Data.List.Forall2

namespace AndInverter.Aiger

/-! Circuits as files describe them: the largest index, the inputs, the literals that drive
the outputs, and the gates, each list in the order of its lines. -/

def inputNodes (inputs : List Nat) : List (Nat × Kind) :=
  inputs.map (·, .input)

def gateNodes (gates : List Definition) : List (Nat × Kind) :=
  gates.map fun gate => (gate.id, .gate gate.left gate.right)

/-- The outputs get their ids in order, from the first one that is free. -/
def outputNodes (first : Nat) (drivers : List Literal) : List (Nat × Kind) :=
  (drivers.zipIdx first).map fun (driver, id) => (id, .output driver)

structure Circuit where
  largest : Nat
  inputs : List Nat
  outputs : List Literal
  gates : List Definition
deriving DecidableEq, Repr

namespace Circuit

def defined (circuit : Circuit) : List Nat :=
  circuit.inputs ++ circuit.gates.map Definition.id

def Names (circuit : Circuit) (literal : Literal) : Prop :=
  literal.node = 0 ∨ literal.node ∈ circuit.defined

instance (circuit : Circuit) (literal : Literal) : Decidable (circuit.Names literal) :=
  inferInstanceAs (Decidable (_ ∨ _))

def Reads (circuit : Circuit) (consumer driver : Nat) : Prop :=
  ∃ gate ∈ circuit.gates, gate.id = consumer ∧
    (gate.left.node = driver ∨ gate.right.node = driver)

/-- What a description must satisfy to describe a circuit at all. -/
structure Sensible (circuit : Circuit) : Prop where
  nodup : circuit.defined.Nodup
  bounded : ∀ id ∈ circuit.defined, 1 ≤ id ∧ id ≤ circuit.largest
  fanins : ∀ gate ∈ circuit.gates, circuit.Names gate.left ∧ circuit.Names gate.right
  outputs : ∀ driver ∈ circuit.outputs, circuit.Names driver
  acyclic : ∀ id, ¬Relation.TransGen circuit.Reads id id

/-! ## The graph -/

def nodes (circuit : Circuit) : List (Nat × Kind) :=
  (0, .constant) :: inputNodes circuit.inputs ++ gateNodes circuit.gates ++
    outputNodes (circuit.largest + 1) circuit.outputs

/-- The graph of a circuit, apart from its labels. -/
structure Describes (circuit : Circuit) (graph : Graph) : Prop where
  size : graph.size = circuit.largest + 1 + circuit.outputs.length
  inputs : graph.inputs = circuit.inputs
  outputs : graph.outputs = List.range' (circuit.largest + 1) circuit.outputs.length
  comprises : graph.Comprises circuit.nodes

/-! ## The text -/

def counts (circuit : Circuit) : List Nat :=
  [circuit.largest, circuit.inputs.length, 0, circuit.outputs.length, circuit.gates.length]

def Heads (circuit : Circuit) (line : List Char) : Prop :=
  ∃ numerals, Text.words line = ['a', 'a', 'g'] :: numerals ∧
    numerals.map Text.numeral? = circuit.counts.map some

/-- The bytes begin with the header of the circuit, a line for each input, a line for each
output, and a line for each gate. -/
def Opens (circuit : Circuit) (bytes after : Text.Bytes) : Prop :=
  ∃ header inputs outputs gates,
    Text.BeginsWithLines bytes (header :: (inputs ++ outputs ++ gates)) after ∧
      circuit.Heads header ∧
      List.Forall₂ (fun line id => Text.Spells line [2 * id]) inputs circuit.inputs ∧
      List.Forall₂ (fun line driver => Text.Spells line [driver.raw]) outputs circuit.outputs ∧
      List.Forall₂ (fun line gate => Text.Spells line [2 * gate.id, gate.left.raw, gate.right.raw])
        gates circuit.gates

end Circuit

end AndInverter.Aiger
