import AndInverter.Sat.Backend
import AndInverter.Traversal.TopologicalSort

namespace AndInverter

/-! Encoding fanin cones as clauses. Every node of a cone gets a variable after
its fanins, and a gate the three clauses of a conjunction. An output has no
variable of its own: it is the literal of what drives it. -/

namespace Graph

/-- What lies below a node of the cone of `root`; the cone holds active nodes
only. -/
def coneBelow (graph : Graph) (root id : Nat) : Result (List Nat) := do
  let node ← graph.node id
  if node.active then return node.fanins.map Literal.node
  else throw (.defect (.inactiveInCone id root))

theorem lt_size_of_coneBelow {graph : Graph} {root id : Nat} {nodes : List Nat}
    (success : graph.coneBelow root id = .ok nodes) : id < graph.size := by
  unfold coneBelow at success
  cases found : graph.node id with
  | error failure => simp [found, bind, Except.bind] at success
  | ok node => exact lt_size_of_node? (node_eq_ok_iff.mp found)

def coneExplorer (graph : Graph) (root : Nat) : Explorer Error where
  bound := graph.size
  below := graph.coneBelow root
  refusal _ _ := none
  cycle _ := .defect .cycle
  lt_bound := lt_size_of_coneBelow

/-- The nodes of two cones, fanins first: those of the first cone, then what the
second one adds. -/
def cones (graph : Graph) (first second : Nat) : Finished × Option Error :=
  match (graph.coneExplorer first).explore [first] with
  | (finished, some failure) => (finished, some failure)
  | (finished, none) => (graph.coneExplorer second).exploreFrom [second] finished

end Graph

structure Encoding (State : Type) where
  literals : Array (Option SatLiteral)
  backend : State

namespace Encoding

variable {State : Type} [Backend State]

def start (size : Nat) (backend : State) : Encoding State :=
  ⟨Array.replicate size none, backend⟩

def literal (encoding : Encoding State) (edge : Literal) : Result SatLiteral :=
  match encoding.literals[edge.node]?.join with
  | none => .error (.defect (.unencoded edge.node))
  | some literal => .ok (if edge.inverted then literal.not else literal)

def define (id : Nat) (literal : SatLiteral) (backend : State) (encoding : Encoding State) :
    Encoding State :=
  ⟨encoding.literals.setIfInBounds id (some literal), backend⟩

def introduce (id : Nat) (clauses : SatLiteral → Formula) (encoding : Encoding State) :
    Encoding State :=
  let (literal, backend) := Backend.newVariable encoding.backend
  encoding.define id literal (Backend.addFormula (clauses literal) backend)

def addNode (id : Nat) (kind : Kind) (encoding : Encoding State) : Result (Encoding State) :=
  match kind with
  | .constant => return encoding.introduce id fun literal => [[literal.not]]
  | .input => return encoding.introduce id fun _ => []
  | .gate left right => do
      let left ← encoding.literal left
      let right ← encoding.literal right
      return encoding.introduce id fun literal => .andGate literal left right
  | .output driver => do
      return encoding.define id (← encoding.literal driver) encoding.backend

/-- Encodes nodes in order. A failure leaves what was encoded before it. -/
def addNodes (graph : Graph) : List Nat → Encoding State → Encoding State × Option Error
  | [], encoding => (encoding, none)
  | id :: others, encoding =>
      match (graph.node id).bind fun node => encoding.addNode id node.kind with
      | .error failure => (encoding, some failure)
      | .ok extended => addNodes graph others extended

end Encoding

end AndInverter
