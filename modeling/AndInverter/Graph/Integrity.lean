import AndInverter.Traversal.TopologicalSort

namespace AndInverter.Graph

/-! The integrity check: node zero is the active constant and the only one; every
edge of an active node joins two active nodes that know of it; inputs and outputs
are what they are declared to be; what the outputs see has no cycle. -/

def checkFaninEdge (id : Nat) (fanin : Literal) (graph : Graph) : Result Unit :=
  match graph.node? fanin.node with
  | none => .error (.defect (.undefinedFanin id fanin))
  | some driver =>
      if !driver.active then .error (.defect (.inactiveFanin id fanin))
      else if ⟨id, fanin.inverted⟩ ∈ driver.fanouts then .ok ()
      else .error (.defect (.unlistedFanin id fanin))

def checkFanoutEdge (id : Nat) (fanout : Literal) (graph : Graph) : Result Unit :=
  match graph.node? fanout.node with
  | none => .error (.defect (.undefinedFanout id fanout))
  | some consumer =>
      if !consumer.active then .error (.defect (.inactiveFanout id fanout))
      else if ⟨id, fanout.inverted⟩ ∈ consumer.fanins then .ok ()
      else .error (.defect (.unreadFanout id fanout))

def checkNode (id : Nat) (graph : Graph) : Result Unit := do
  let node ← graph.node id
  if id ≠ 0 && node.kind.isConstant then throw .constantId
  if node.active then
    node.fanins.forM fun fanin => graph.checkFaninEdge id fanin
    node.fanouts.forM fun fanout => graph.checkFanoutEdge id fanout

def checkDeclarations (graph : Graph) : Result Unit := do
  graph.inputs.forM fun id => do
    if !(← graph.node id).kind.isInput then throw (.defect (.notInput id))
  graph.outputs.forM fun id => do
    if !(← graph.node id).kind.isOutput then throw (.defect (.notOutput id))

def checkIntegrity (graph : Graph) : Result Unit := do
  if !(graph.node? 0).any fun node => node.kind.isConstant && node.active then
    throw (.defect .misplacedConstant)
  graph.ids.forM fun id => graph.checkNode id
  graph.checkDeclarations
  let _ ← graph.topologicalSort

end AndInverter.Graph
