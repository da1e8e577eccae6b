import AndInverter.Simulation.Evaluation

namespace AndInverter

/-! The bit-parallel simulator. It keeps the words of the last batch, and the nodes in the
order in which they are settled; both are made anew for each graph. Every look-up is
checked: a node or a word that is not there ends the evaluation. -/

namespace Words

def word (words : Words) (id : Nat) : Result Word :=
  match words[id]? with
  | some word => .ok word
  | none => .error (.missingNode id)

def literalWord (words : Words) (literal : Literal) : Result Word := do
  return (← words.word literal.node) ^^^ literal.mask

def write (words : Words) (id : Nat) (word : Word) : Result Words :=
  if id < words.size then .ok (words.set id word) else .error (.missingNode id)

end Words

structure Simulator where
  words : Words
  order : List Nat

namespace Simulator

def new : Simulator := ⟨#[], []⟩

def prepare (graph : Graph) (simulator : Simulator) : Simulator :=
  { simulator with words := .zeros graph.size, order := graph.order }

def drive (graph : Graph) (batch : Batch) (words : Words) : Result Words :=
  (graph.inputs.zip batch.words).foldlM (fun words (id, word) => words.write id word) words

/-- Gives a node its word, from the words of what it reads. An input has its word already. -/
def settle (graph : Graph) (words : Words) (id : Nat) : Result Words := do
  match (← graph.node id).kind with
  | .constant => words.write id 0#32
  | .input => return words
  | .gate left right =>
      words.write id ((← words.literalWord left) &&& (← words.literalWord right))
  | .output driver => words.write id (← words.literalWord driver)

def simulate (graph : Graph) (batch : Batch) (simulator : Simulator) : Result Simulator := do
  let driven ← drive graph batch simulator.words
  return { simulator with words := ← simulator.order.foldlM (settle graph) driven }

def evaluate (graph : Graph) (batch : Batch) (simulator : Simulator) :
    Result (List Word × Simulator) := do
  let after ← (simulator.prepare graph).simulate graph batch
  return (← graph.outputs.mapM after.words.word, after)

end Simulator

end AndInverter
