import AndInverter.Aiger.Section
import AndInverter.Graph.Construction
import AndInverter.Traversal.DepthFirst

namespace AndInverter.Aiger

/-! Placing gates that a file defines in any order. Each gate is added to the
graph after the listed gates that it reads. -/

def definition? (definitions : List Definition) (id : Nat) : Option Definition :=
  definitions.find? (·.id = id)

def idBound (definitions : List Definition) : Nat :=
  definitions.foldr (fun definition bound => max (definition.id + 1) bound) 0

theorem lt_idBound {definitions : List Definition} {definition : Definition}
    (member : definition ∈ definitions) : definition.id < idBound definitions := by
  induction definitions with
  | nil => cases member
  | cons head tail induction =>
      rcases List.mem_cons.mp member with equal | member
      · subst equal
        exact Nat.lt_of_lt_of_le (Nat.lt_succ_self _) (Nat.le_max_left ..)
      · exact Nat.lt_of_lt_of_le (induction member) (Nat.le_max_right ..)

def listedBelow (definitions : List Definition) (id : Nat) : Result (List Nat) :=
  match definition? definitions id with
  | none => .error (.missingNode id)
  | some definition => .ok <|
      [definition.right.node, definition.left.node].filter fun fanin =>
        (definition? definitions fanin).isSome

theorem lt_idBound_of_listedBelow {definitions : List Definition} {id : Nat} {nodes : List Nat}
    (success : listedBelow definitions id = .ok nodes) : id < idBound definitions := by
  unfold listedBelow at success
  split at success
  · cases success
  · rename_i definition found
    have named : definition.id = id := by simpa using List.find?_some found
    exact named ▸ lt_idBound (List.mem_of_find?_eq_some found)

def explorer (definitions : List Definition) : Explorer Error where
  bound := idBound definitions
  below := listedBelow definitions
  refusal _ _ := none
  cycle id := .defect (.gateOnCycle id)
  lt_bound := lt_idBound_of_listedBelow

def taken? (graph : Graph) (definitions : List Definition) (earlier : Marks) : Option Nat :=
  match definitions with
  | [] => none
  | definition :: others =>
      if earlier.contains definition.id || graph.isDefined definition.id then
        some definition.id
      else taken? graph others (earlier.insert definition.id)

def placeGate (definitions : List Definition) (graph : Graph) (id : Nat) : Result Graph :=
  match definition? definitions id with
  | none => .error (.missingNode id)
  | some definition => graph.addGateAt id definition.left definition.right

/-- Adds the listed gates to a graph. A gate that cannot be added is reported
before a cycle that the walk meets after it. -/
def placeGates (definitions : List Definition) (graph : Graph) : Result Graph := do
  if let some id := taken? graph definitions (.none graph.size) then throw (.duplicateId id)
  let (finished, failure?) := (explorer definitions).explore (definitions.map Definition.id)
  let placed ← finished.order.foldlM (placeGate definitions) graph
  match failure? with
  | some failure => throw failure
  | none => return placed

end AndInverter.Aiger
