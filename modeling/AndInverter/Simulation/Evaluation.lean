import AndInverter.Simulation.Batch
import AndInverter.Simulation.Words
import AndInverter.Traversal.PostOrder

namespace AndInverter.Graph

/-! Bit-parallel evaluation: the words of all nodes that the outputs see, for one
batch, computed node by node with the fanins first. -/

def drive (graph : Graph) (batch : Batch) (words : Words) : Words :=
  (graph.inputs.zip batch.words).foldl (fun words (id, word) => words.set id word) words

/-- The word of a node of a kind, from the words of what it reads; nothing for an
input, which has its word already. -/
def settled? (words : Words) : Kind → Option Word
  | .constant => some 0#32
  | .input => none
  | .gate left right => some (words.ofLiteral left &&& words.ofLiteral right)
  | .output driver => some (words.ofLiteral driver)

def settle (graph : Graph) (words : Words) (id : Nat) : Words :=
  match (graph.node? id).bind fun node => settled? words node.kind with
  | some word => words.set id word
  | none => words

/-- The words for one batch, over words from before. `order` holds the nodes to
settle, fanins first. -/
def simulate (graph : Graph) (order : List Nat) (batch : Batch) (words : Words) : Words :=
  order.foldl graph.settle (graph.drive batch words)

def evaluate (graph : Graph) (batch : Batch) : Words :=
  graph.simulate graph.order batch (.zeros graph.size)

def outputWords (graph : Graph) (words : Words) : List Word :=
  graph.outputs.map words.ofNode

end AndInverter.Graph
