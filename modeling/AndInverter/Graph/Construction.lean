import AndInverter.Graph.Basic

namespace AndInverter.Graph

/-! Building a graph. Inputs and gates take a given id or the next free one;
outputs take the next free one. A construction either succeeds or leaves the
graph as it was. -/

/-- Makes room for all ids up to `largest`, so that the next free id lies above it. Memory is
taken as unlimited: only the size has to fit into 64 bits, though room for a huge id would in
fact exhaust the memory. -/
def reserve (largest : Nat) (graph : Graph) : Result Graph :=
  if UInt64.size ≤ largest + 1 then .error .overflow
  else .ok { graph with
    slots := graph.slots ++ Array.replicate (largest + 1 - graph.size) none }

def claim (id : Nat) (node : Node) (graph : Graph) : Result Graph := do
  if id = 0 then throw .constantId
  let graph ← graph.reserve id
  if graph.isDefined id then throw (.duplicateId id)
  return { graph with slots := graph.slots.setIfInBounds id (some node) }

def checkFanin (fanin : Literal) (graph : Graph) : Result Unit := do
  let driver ← graph.node fanin.node
  if driver.kind.isOutput then throw (.defect (.outputAsFanin fanin.node))

/-- Lists a consumer among the fanouts of what it reads. For ids from 2 ^ 63 on the literal of the
consumer, packed into 64 bits, would lose the top bit (`Literal.packed`). That is not modelled:
a graph with such an id fits no memory. -/
def connect (fanin : Literal) (consumer : Nat) (graph : Graph) : Graph :=
  graph.modify fanin.node (.addFanout ⟨consumer, fanin.inverted⟩)

def addInputAt (id : Nat) (graph : Graph) : Result Graph := do
  let graph ← graph.claim id (.ofKind .input)
  return { graph with inputs := graph.inputs ++ [id] }

def addInput (graph : Graph) : Nat × Graph :=
  (graph.size,
    { graph with
      slots := graph.slots.push (some (.ofKind .input))
      inputs := graph.inputs ++ [graph.size] })

def addGateAt (id : Nat) (left right : Literal) (graph : Graph) : Result Graph := do
  graph.checkFanin left
  graph.checkFanin right
  let graph ← graph.claim id (.ofKind (.gate left right))
  return (graph.connect left id).connect right id

def addGate (left right : Literal) (graph : Graph) : Result (Nat × Graph) := do
  return (graph.size, ← graph.addGateAt graph.size left right)

def addOutput (driver : Literal) (graph : Graph) : Result (Nat × Graph) := do
  graph.checkFanin driver
  let grown := { graph with
    slots := graph.slots.push (some (.ofKind (.output driver)))
    outputs := graph.outputs ++ [graph.size] }
  return (graph.size, grown.connect driver graph.size)

def setLabel (id : Nat) (label : String) (graph : Graph) : Result Graph :=
  graph.update id fun node => { node with label := some label }

/-- Marks a node as removed, and leaves its edges alone. -/
def deactivate (id : Nat) (graph : Graph) : Result Graph :=
  if id = 0 then .error (.defect .constantDeactivated)
  else graph.update id fun node => { node with active := false }

end AndInverter.Graph
