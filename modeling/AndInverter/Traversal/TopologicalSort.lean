import AndInverter.Graph.Basic
import AndInverter.Traversal.DepthFirst

namespace AndInverter.Graph

/-! Topological sorting. The sort holds every node that the outputs see, fanins
first. It fails when a node on the way reads an inactive node or an empty slot,
or when the way meets itself. -/

def faninIds (id : Nat) (graph : Graph) : Result (List Nat) := do
  return (← graph.node id).fanins.map Literal.node

theorem lt_size_of_faninIds {graph : Graph} {id : Nat} {nodes : List Nat}
    (success : graph.faninIds id = .ok nodes) : id < graph.size := by
  unfold faninIds at success
  cases found : graph.node id with
  | error failure => simp [found, bind, Except.bind] at success
  | ok node => exact lt_size_of_node? (node_eq_ok_iff.mp found)

def sorter (graph : Graph) : Explorer Error where
  bound := graph.size
  below id := graph.faninIds id
  refusal id child :=
    if graph.isActive child then none else some (.defect (.readsInactive id child))
  cycle _ := .defect .cycle
  lt_bound := lt_size_of_faninIds

def topologicalSort (graph : Graph) : Result (List Nat) :=
  match graph.sorter.explore graph.outputs with
  | (_, some failure) => .error failure
  | (finished, none) => .ok finished.order

end AndInverter.Graph
