import AndInverter.Graph.Construction
import AndInverter.Graph.Replacement

namespace AndInverter

/-! Editing a graph in place, by one small change after the other. The changes that were
made before an edit failed stay, so an edit that is to fail without a trace has to look
before it changes anything. -/

namespace Node

def clearFanouts (node : Node) : Node :=
  { node with fanouts := [] }

def addFanouts (fanouts : List Literal) (node : Node) : Node :=
  { node with fanouts := node.fanouts ++ fanouts }

def rewire (transform : Literal → Literal) (node : Node) : Node :=
  { node with kind := node.kind.mapFanins transform }

def retire (node : Node) : Node :=
  { node with active := false }

end Node

abbrev Edit (α : Type) := EStateM Error Graph α

namespace Edit

/-- The graph that an edit leaves, also where it fails. -/
def leave {α : Type} (edit : Edit α) (graph : Graph) : Graph :=
  match edit.run graph with
  | .ok _ after => after
  | .error _ after => after

def inspect {α : Type} (look : Graph → Result α) : Edit α := fun graph =>
  match look graph with
  | .ok value => .ok value graph
  | .error failure => .error failure graph

/-- A change that is made as a whole or not at all. -/
def step (change : Graph → Result Graph) : Edit Unit := fun graph =>
  match change graph with
  | .ok changed => .ok () changed
  | .error failure => .error failure graph

def update (id : Nat) (change : Node → Node) : Edit Unit :=
  step (Graph.update id change)

/-! ## Construction -/

def claim (id : Nat) (node : Node) : Edit Unit := do
  if id = 0 then throw .constantId
  step (Graph.reserve id)
  if (← get).isDefined id then throw (.duplicateId id)
  modify fun graph => { graph with slots := graph.slots.setIfInBounds id (some node) }

def connect (fanin : Literal) (consumer : Nat) : Edit Unit :=
  update fanin.node (.addFanout ⟨consumer, fanin.inverted⟩)

def addInput : Edit Nat := do
  let id := (← get).size
  modify fun graph => { graph with slots := graph.slots.push (some (.ofKind .input)) }
  modify fun graph => { graph with inputs := graph.inputs ++ [id] }
  return id

def addInputAt (id : Nat) : Edit Nat := do
  claim id (.ofKind .input)
  modify fun graph => { graph with inputs := graph.inputs ++ [id] }
  return id

def addGateAt (id : Nat) (left right : Literal) : Edit Nat := do
  inspect (Graph.checkFanin left)
  inspect (Graph.checkFanin right)
  claim id (.ofKind (.gate left right))
  connect left id
  connect right id
  return id

def addGate (left right : Literal) : Edit Nat := do
  addGateAt (← get).size left right

def addOutput (driver : Literal) : Edit Nat := do
  inspect (Graph.checkFanin driver)
  let id := (← get).size
  modify fun graph => { graph with slots := graph.slots.push (some (.ofKind (.output driver))) }
  connect driver id
  modify fun graph => { graph with outputs := graph.outputs ++ [id] }
  return id

/-! ## Replacement -/

/-- Replaces a gate: its consumers are rewired one after the other, its fanins forget it,
the target takes over its fanouts. -/
def replace (replacement : Literal) (gate : Nat) : Edit Unit := do
  let old ← inspect (Graph.checkReplacement replacement gate)
  update gate .clearFanouts
  (old.fanouts.map Literal.node).forM fun consumer =>
    update consumer (.rewire (Graph.redirect replacement gate))
  (old.fanins.map Literal.node).forM fun driver => update driver (.dropFanouts (· = gate))
  update replacement.node (.addFanouts (old.fanouts.map (·.xor replacement.inverted)))
  update gate .retire

/-! ## Removal -/

def remove (gate : Nat) : Edit Unit := do
  let old ← inspect (·.node gate)
  update gate .retire
  update gate .clearFanouts
  (old.fanins.map Literal.node).forM fun driver => update driver (.dropFanouts (· = gate))

end Edit

inductive Construction
  | input
  | inputAt (id : Nat)
  | gate (left right : Literal)
  | gateAt (id : Nat) (left right : Literal)
  | output (driver : Literal)
deriving DecidableEq, Repr

namespace Construction

def edit : Construction → Edit Nat
  | .input => Edit.addInput
  | .inputAt id => Edit.addInputAt id
  | .gate left right => Edit.addGate left right
  | .gateAt id left right => Edit.addGateAt id left right
  | .output driver => Edit.addOutput driver

def kind : Construction → Kind
  | .input => .input
  | .inputAt _ => .input
  | .gate left right => .gate left right
  | .gateAt _ left right => .gate left right
  | .output driver => .output driver

def apply (graph : Graph) : Construction → Result (Nat × Graph)
  | .input => .ok graph.addInput
  | .inputAt id => (graph.addInputAt id).map fun grown => (id, grown)
  | .gate left right => graph.addGate left right
  | .gateAt id left right => (graph.addGateAt id left right).map fun grown => (id, grown)
  | .output driver => graph.addOutput driver

end Construction

end AndInverter
