import AndInverter.Graph.Basic
import AndInverter.Simulation.Words

namespace AndInverter

/-! Candidate classes: nodes that no simulated pattern has told apart so far, up
to inversion. A class is a list of literals. Its first member, the pivot, is not
inverted; another member is inverted when its values are the opposite of the
pivot's. -/

structure Partition where
  classes : List (List Literal)
deriving DecidableEq, Repr

namespace Partition

def empty : Partition := ⟨[]⟩

def ofClasses (classes : List (List Literal)) : Partition :=
  ⟨classes.filter fun members => 2 ≤ members.length⟩

def initial (graph : Graph) : Partition :=
  ofClasses [Literal.low :: graph.activeGates.map Literal.plain]

/-- What becomes of a member whose pivot has the given word: it stays as it is,
stays with the inverter toggled, or has to go. -/
def keep? (words : Words) (pivot : Word) (member : Literal) : Option Literal :=
  if words.ofLiteral member = pivot then some member
  else if ~~~ words.ofLiteral member = pivot then some member.not
  else none

def join? (words : Words) (pivot : Word) (id : Nat) : Option Literal :=
  if words.ofNode id = pivot then some ⟨id, false⟩
  else if ~~~ words.ofNode id = pivot then some ⟨id, true⟩
  else none

/-- Groups nodes into new classes, each led by the first node that fits no
earlier one. -/
def group (words : Words) : List Nat → List (List Literal)
  | [] => []
  | pivot :: others =>
      let join := join? words (words.ofNode pivot)
      (.plain pivot :: others.filterMap join)
        :: group words (others.filter fun id => (join id).isNone)
termination_by ids => ids.length
decreasing_by
  rw [List.length_unattach, List.length_cons]
  exact Nat.lt_succ_of_le (Nat.le_trans (List.length_filter_le ..) (by simp))

def kept (words : Words) : List Literal → List Literal
  | [] => []
  | pivot :: members => pivot :: members.filterMap (keep? words (words.ofNode pivot.node))

def evicted (words : Words) : List Literal → List Nat
  | [] => []
  | pivot :: members =>
      (members.filter fun member => (keep? words (words.ofNode pivot.node) member).isNone).map
        Literal.node

/-- Splits the classes by simulated words. What stays of the old classes comes
first; the new classes follow, in the order of the classes that they come from. -/
def refine (words : Words) (partition : Partition) : Partition :=
  ofClasses (partition.classes.map (kept words) ++
    partition.classes.flatMap fun members => group words (evicted words members))

def evictions (words : Words) (partition : Partition) : Nat :=
  (partition.classes.flatMap (evicted words)).length

def classLE (left right : List Literal) : Bool :=
  List.le (left.map Literal.raw) (right.map Literal.raw)

def sorted (partition : Partition) : Partition :=
  ⟨partition.classes.mergeSort classLE⟩

def memberships (partition : Partition) : List (Nat × Membership) :=
  partition.classes.zipIdx.flatMap fun (members, position) =>
    members.map fun member => (member.node, ⟨position, member.inverted⟩)

def forget (graph : Graph) : Graph :=
  graph.mapNodes fun _ node => { node with membership := none }

def record : List (Nat × Membership) → Graph → Graph × Result Unit
  | [], graph => (graph, .ok ())
  | (id, membership) :: others, graph =>
      match graph.update id fun node => { node with membership := some membership } with
      | .error failure => (graph, .error failure)
      | .ok recorded => record others recorded

def recordIn (partition : Partition) (graph : Graph) : Graph × Result Unit :=
  record partition.memberships (forget graph)

/-- Sorts the classes and records them in a graph. They are sorted also where a member is not
in the graph. -/
def finalize (graph : Graph) (partition : Partition) : Partition × Graph × Result Unit :=
  (partition.sorted, partition.sorted.recordIn graph)

def classOf? (partition : Partition) (id : Nat) (graph : Graph) : Option (List Literal) := do
  let membership ← (← graph.node? id).membership
  partition.classes[membership.position]?

end Partition

end AndInverter
