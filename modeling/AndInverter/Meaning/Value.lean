import AndInverter.Graph.Basic

namespace AndInverter

/-! The meaning of a graph: the value that each node takes when the inputs are
given values. It is a relation, so that it makes sense for graphs with empty slots
and with cycles; a node takes one value at most. -/

abbrev Assignment := Nat → Bool

namespace Graph

/-- The value that a node takes. Activity does not matter. -/
inductive Takes (graph : Graph) (assignment : Assignment) : Nat → Bool → Prop
  | constant {id : Nat} {node : Node} (found : graph.node? id = some node)
      (kind : node.kind = .constant) : Takes graph assignment id false
  | input {id : Nat} {node : Node} (found : graph.node? id = some node)
      (kind : node.kind = .input) : Takes graph assignment id (assignment id)
  | gate {id : Nat} {node : Node} {left right : Literal} {leftValue rightValue : Bool}
      (found : graph.node? id = some node) (kind : node.kind = .gate left right)
      (leftTakes : Takes graph assignment left.node leftValue)
      (rightTakes : Takes graph assignment right.node rightValue) :
      Takes graph assignment id
        ((leftValue != left.inverted) && (rightValue != right.inverted))
  | output {id : Nat} {node : Node} {driver : Literal} {value : Bool}
      (found : graph.node? id = some node) (kind : node.kind = .output driver)
      (driverTakes : Takes graph assignment driver.node value) :
      Takes graph assignment id (value != driver.inverted)

def Carries (graph : Graph) (assignment : Assignment) (literal : Literal) (value : Bool) : Prop :=
  graph.Takes assignment literal.node (value != literal.inverted)

theorem Takes.unique {graph : Graph} {assignment : Assignment} {id : Nat} {first second : Bool}
    (firstTakes : graph.Takes assignment id first)
    (secondTakes : graph.Takes assignment id second) : first = second := by
  induction firstTakes generalizing second with
  | constant found kind =>
      cases secondTakes with
      | constant => rfl
      | input otherFound otherKind
      | gate otherFound otherKind
      | output otherFound otherKind =>
          cases found.symm.trans otherFound
          cases kind.symm.trans otherKind
  | input found kind =>
      cases secondTakes with
      | input => rfl
      | constant otherFound otherKind
      | gate otherFound otherKind
      | output otherFound otherKind =>
          cases found.symm.trans otherFound
          cases kind.symm.trans otherKind
  | gate found kind leftTakes rightTakes leftUnique rightUnique =>
      cases secondTakes with
      | gate otherFound otherKind otherLeft otherRight =>
          cases found.symm.trans otherFound
          cases kind.symm.trans otherKind
          rw [leftUnique otherLeft, rightUnique otherRight]
      | constant otherFound otherKind
      | input otherFound otherKind
      | output otherFound otherKind =>
          cases found.symm.trans otherFound
          cases kind.symm.trans otherKind
  | output found kind driverTakes unique =>
      cases secondTakes with
      | output otherFound otherKind otherTakes =>
          cases found.symm.trans otherFound
          cases kind.symm.trans otherKind
          rw [unique otherTakes]
      | constant otherFound otherKind
      | input otherFound otherKind
      | gate otherFound otherKind =>
          cases found.symm.trans otherFound
          cases kind.symm.trans otherKind

/-- Two nodes, each in its own graph, that take the same values for all
assignments of the inputs. -/
def SameFunction (graph : Graph) (id : Nat) (other : Graph) (otherId : Nat) : Prop :=
  ∀ assignment value, graph.Takes assignment id value ↔ other.Takes assignment otherId value

end Graph

end AndInverter
