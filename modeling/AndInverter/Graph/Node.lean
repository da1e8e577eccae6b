import AndInverter.Literal

namespace AndInverter

/-! The nodes of a graph. Node zero is the constant low signal; the others are
inputs, two-input gates and outputs. A node knows what it reads and who reads
it. -/

inductive Kind
  | constant
  | input
  | gate (left right : Literal)
  | output (driver : Literal)
deriving DecidableEq, Repr, Inhabited

namespace Kind

def isConstant : Kind → Bool
  | .constant => true
  | _ => false

def isInput : Kind → Bool
  | .input => true
  | _ => false

def isGate : Kind → Bool
  | .gate .. => true
  | _ => false

def isOutput : Kind → Bool
  | .output _ => true
  | _ => false

def fanins : Kind → List Literal
  | .constant => []
  | .input => []
  | .gate left right => [left, right]
  | .output driver => [driver]

def mapFanins (transform : Literal → Literal) : Kind → Kind
  | .constant => .constant
  | .input => .input
  | .gate left right => .gate (transform left) (transform right)
  | .output driver => .output (transform driver)

@[simp] theorem fanins_mapFanins (transform : Literal → Literal) (kind : Kind) :
    (kind.mapFanins transform).fanins = kind.fanins.map transform := by
  cases kind <;> rfl

@[simp] theorem isConstant_mapFanins (transform : Literal → Literal) (kind : Kind) :
    (kind.mapFanins transform).isConstant = kind.isConstant := by
  cases kind <;> rfl

@[simp] theorem isInput_mapFanins (transform : Literal → Literal) (kind : Kind) :
    (kind.mapFanins transform).isInput = kind.isInput := by
  cases kind <;> rfl

@[simp] theorem isGate_mapFanins (transform : Literal → Literal) (kind : Kind) :
    (kind.mapFanins transform).isGate = kind.isGate := by
  cases kind <;> rfl

@[simp] theorem isOutput_mapFanins (transform : Literal → Literal) (kind : Kind) :
    (kind.mapFanins transform).isOutput = kind.isOutput := by
  cases kind <;> rfl

@[simp] theorem mapFanins_id (kind : Kind) : kind.mapFanins id = kind := by
  cases kind <;> rfl

theorem mapFanins_mapFanins (first second : Literal → Literal) (kind : Kind) :
    (kind.mapFanins first).mapFanins second = kind.mapFanins (second ∘ first) := by
  cases kind <;> rfl

theorem mapFanins_eq_self {transform : Literal → Literal} {kind : Kind}
    (fixed : ∀ edge ∈ kind.fanins, transform edge = edge) : kind.mapFanins transform = kind := by
  cases kind <;> simp_all [mapFanins, fanins]

theorem isConstant_iff {kind : Kind} : kind.isConstant = true ↔ kind = .constant := by
  cases kind <;> simp [isConstant]

theorem isInput_iff {kind : Kind} : kind.isInput = true ↔ kind = .input := by
  cases kind <;> simp [isInput]

end Kind

/-- The candidate class that a node was last recorded in, and whether it equals
the opposite of the first member of that class. -/
structure Membership where
  position : Nat
  inverted : Bool
deriving DecidableEq, Repr

/-- A node. `fanouts` holds one literal for each edge that leaves it: the
consumer, inverted when the edge is. -/
structure Node where
  kind : Kind
  fanouts : List Literal := []
  active : Bool := true
  label : Option String := none
  signature : Word := 0#32
  membership : Option Membership := none
deriving DecidableEq, Repr

namespace Node

def ofKind (kind : Kind) : Node where
  kind := kind

def fanins (node : Node) : List Literal :=
  node.kind.fanins

def addFanout (fanout : Literal) (node : Node) : Node :=
  { node with fanouts := node.fanouts ++ [fanout] }

def dropFanouts (gone : Nat → Bool) (node : Node) : Node :=
  { node with fanouts := node.fanouts.filter fun fanout => !gone fanout.node }

theorem dropFanouts_congr {first second : Nat → Bool} {node : Node}
    (agree : ∀ fanout ∈ node.fanouts, first fanout.node = second fanout.node) :
    node.dropFanouts first = node.dropFanouts second := by
  have same : node.fanouts.filter (fun fanout => !first fanout.node) =
      node.fanouts.filter fun fanout => !second fanout.node :=
    List.filter_congr fun fanout member => by rw [agree fanout member]
  rw [dropFanouts, dropFanouts, same]

theorem dropFanouts_eq_self {gone : Nat → Bool} {node : Node}
    (kept : ∀ fanout ∈ node.fanouts, gone fanout.node = false) : node.dropFanouts gone = node := by
  have same : node.fanouts.filter (fun fanout => !gone fanout.node) = node.fanouts :=
    List.filter_eq_self.mpr fun fanout member => by rw [kept fanout member]; rfl
  rw [dropFanouts, same]

theorem dropFanouts_dropFanouts (first second : Nat → Bool) (node : Node) :
    (node.dropFanouts first).dropFanouts second =
      node.dropFanouts fun consumer => first consumer || second consumer := by
  simp only [dropFanouts, List.filter_filter, Bool.not_or, Bool.and_comm]

theorem dropFanouts_idem (gone : Nat → Bool) (node : Node) :
    (node.dropFanouts gone).dropFanouts gone = node.dropFanouts gone := by
  simp only [dropFanouts_dropFanouts, Bool.or_self]

end Node

end AndInverter
