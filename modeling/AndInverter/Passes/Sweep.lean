import AndInverter.Journal
import AndInverter.Traversal.PostOrder

namespace AndInverter

/-! Sweeping. A gate that no output sees is dead. A sweep makes the dead gates
inactive and removes every edge that leads to one. -/

namespace Graph

/-- The active gates that no output sees, in increasing order. -/
def deadGates (graph : Graph) : List Nat :=
  let seen := graph.order.foldl (fun marks id => marks.insert id) (Marks.none graph.size)
  graph.activeGates.filter fun id => !seen.contains id

def sweepNode (dead : Nat → Bool) (id : Nat) (node : Node) : Node :=
  if dead id then { node with active := false, fanouts := [] } else node.dropFanouts dead

def removeGates (gates : List Nat) (graph : Graph) : Graph :=
  let dead := gates.foldl (fun marks id => marks.insert id) (Marks.none graph.size)
  graph.mapNodes (sweepNode dead.contains)

def sweep (graph : Graph) : Graph :=
  graph.removeGates graph.deadGates

end Graph

def Journal.ofSweep (graph : Graph) : Journal :=
  let dead := graph.deadGates
  dead.map (fun id => .event (.sweep id)) ++
    if dead.isEmpty then [] else [.note (.swept dead.length)]

end AndInverter
