import AndInverter.Graph.Node
import AndInverter.Error

namespace AndInverter

/-! And-inverter graphs. A graph is an arena of slots: the id of a node is the
number of its slot, a slot may be empty, and a node never leaves its slot. Merging
and sweeping only make nodes inactive, so an id keeps its meaning for good. -/

structure Graph where
  slots : Array (Option Node)
  inputs : List Nat
  outputs : List Nat
deriving DecidableEq, Repr

namespace Graph

def empty : Graph where
  slots := #[some (.ofKind .constant)]
  inputs := []
  outputs := []

/-- The number of slots: the largest id plus one. -/
def size (graph : Graph) : Nat :=
  graph.slots.size

def node? (graph : Graph) (id : Nat) : Option Node :=
  graph.slots[id]?.join

def node (graph : Graph) (id : Nat) : Result Node :=
  match graph.node? id with
  | some node => .ok node
  | none => .error (.missingNode id)

def isDefined (graph : Graph) (id : Nat) : Bool :=
  (graph.node? id).isSome

def ids (graph : Graph) : List Nat :=
  (List.range graph.size).filter graph.isDefined

def isActive (graph : Graph) (id : Nat) : Bool :=
  (graph.node? id).any (·.active)

def isGate (graph : Graph) (id : Nat) : Bool :=
  (graph.node? id).any (·.kind.isGate)

def fanins (graph : Graph) (id : Nat) : List Literal :=
  ((graph.node? id).map Node.fanins).getD []

def outputDriver? (graph : Graph) (position : Nat) : Option Literal := do
  let id ← graph.outputs[position]?
  match (← graph.node? id).kind with
  | .output driver => some driver
  | _ => none

def activeGates (graph : Graph) : List Nat :=
  graph.ids.filter fun id => graph.isGate id && graph.isActive id

def mapNodes (change : Nat → Node → Node) (graph : Graph) : Graph :=
  { graph with slots := graph.slots.mapIdx fun id slot => slot.map (change id) }

def modify (id : Nat) (change : Node → Node) (graph : Graph) : Graph :=
  { graph with slots := graph.slots.modify id (·.map change) }

def update (id : Nat) (change : Node → Node) (graph : Graph) : Result Graph := do
  let _ ← graph.node id
  return graph.modify id change

theorem lt_size_of_node? {graph : Graph} {id : Nat} {node : Node}
    (found : graph.node? id = some node) : id < graph.size := by
  unfold node? at found
  rcases Nat.lt_or_ge id graph.slots.size with inside | outside
  · exact inside
  · simp [outside] at found

theorem lt_size_of_isActive {graph : Graph} {id : Nat} (active : graph.isActive id = true) :
    id < graph.size := by
  cases found : graph.node? id with
  | none => simp [isActive, found] at active
  | some node => exact lt_size_of_node? found

theorem length_fanins_le (graph : Graph) (id : Nat) : (graph.fanins id).length ≤ 2 := by
  unfold fanins
  cases graph.node? id with
  | none => simp
  | some node =>
      simp only [Option.map_some, Option.getD_some, Node.fanins]
      cases node.kind <;> simp [Kind.fanins]

@[simp] theorem size_mapNodes (change : Nat → Node → Node) (graph : Graph) :
    (graph.mapNodes change).size = graph.size := by
  simp [mapNodes, size]

@[simp] theorem node?_mapNodes (change : Nat → Node → Node) (graph : Graph) (id : Nat) :
    (graph.mapNodes change).node? id = (graph.node? id).map (change id) := by
  simp only [node?, mapNodes, Array.getElem?_mapIdx]
  cases graph.slots[id]? <;> rfl

@[simp] theorem size_modify (id : Nat) (change : Node → Node) (graph : Graph) :
    (graph.modify id change).size = graph.size := by
  simp [modify, size]

theorem node?_modify (id : Nat) (change : Node → Node) (graph : Graph) (other : Nat) :
    (graph.modify id change).node? other
      = if id = other then (graph.node? other).map change else graph.node? other := by
  simp only [node?, modify, Array.getElem?_modify]
  split
  · cases graph.slots[other]? <;> rfl
  · rfl

theorem node_eq_ok_iff {graph : Graph} {id : Nat} {found : Node} :
    graph.node id = .ok found ↔ graph.node? id = some found := by
  unfold node
  cases graph.node? id <;> simp

theorem mem_ids {graph : Graph} {id : Nat} : id ∈ graph.ids ↔ graph.isDefined id = true := by
  simp only [ids, List.mem_filter, List.mem_range, isDefined, and_iff_right_iff_imp]
  intro defined
  obtain ⟨node, found⟩ := Option.isSome_iff_exists.mp defined
  exact lt_size_of_node? found

end Graph

end AndInverter
