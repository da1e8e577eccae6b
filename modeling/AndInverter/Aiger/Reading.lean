import AndInverter.Aiger.Placement
import AndInverter.Graph.Integrity
import AndInverter.Text.Line

namespace AndInverter.Aiger

open Text (Bytes Reading readLine)

/-! Reading a circuit from a file in the ASCII AIGER format. The inputs and the
gates keep their indices as ids; the outputs get the ids above the largest index.
Symbols become labels, and comments are skipped. -/

def requiredLine (bytes : Bytes) : Result (List Char × Bytes) :=
  match readLine bytes with
  | .finished => .error (.token .endOfFile)
  | .unreadable _ => .error (.stream .notText)
  | .line text after => .ok (text, after)

def requiredLines {α : Type} (ofLine : List Char → Result α) :
    (count : Nat) → Bytes → Result (List α × Bytes)
  | 0, bytes => .ok ([], bytes)
  | count + 1, bytes => do
      let (text, after) ← requiredLine bytes
      let value ← ofLine text
      let (values, rest) ← requiredLines ofLine count after
      return (value :: values, rest)

/-- Reads the input lines. Each input joins the graph at once, so an input that is
declared twice is reported before anything that follows. -/
def readInputs (largest : Nat) : (count : Nat) → Graph → Bytes → Result (Graph × Bytes)
  | 0, graph, bytes => .ok (graph, bytes)
  | count + 1, graph, bytes => do
      let (text, after) ← requiredLine bytes
      let id ← inputLine largest text
      readInputs largest count (← graph.addInputAt id) after

def addOutputs (drivers : List Literal) (graph : Graph) : Result Graph :=
  drivers.foldlM (fun graph driver => return (← graph.addOutput driver).2) graph

def applySymbol (symbol : Symbol) (graph : Graph) : Result Graph :=
  let nodes := match symbol.kind with
    | .input => graph.inputs
    | .output => graph.outputs
  match nodes[symbol.position]? with
  | none => .error (.token (.danglingSymbol symbol.kind.letter symbol.position))
  | some id => graph.setLabel id (String.ofList symbol.name)

/-- Reads the symbols up to where they end. Of two symbols of one node the later
one stands. -/
def readSymbols (graph : Graph) (bytes : Bytes) : Result Graph :=
  match _ : readLine bytes with
  | .finished => .ok graph
  | .unreadable _ => .error (.stream .notText)
  | .line text after =>
      match symbolLine text with
      | .error failure => .error failure
      | .ok none => .ok graph
      | .ok (some symbol) =>
          match applySymbol symbol graph with
          | .error failure => .error failure
          | .ok labelled => readSymbols labelled after
termination_by bytes.length
decreasing_by exact Text.readLine_line_lt (by assumption)

def read (bytes : Bytes) : Result Graph := do
  let (line, bytes) ← requiredLine bytes
  let header ← Header.ofLine line
  let graph ← Graph.empty.reserve header.largest
  let (graph, bytes) ← readInputs header.largest header.inputs graph bytes
  let (drivers, bytes) ← requiredLines outputLine header.outputs bytes
  let (definitions, bytes) ← requiredLines (gateLine header.largest) header.gates bytes
  let graph ← placeGates definitions graph
  let graph ← addOutputs drivers graph
  let graph ← readSymbols graph bytes
  graph.checkIntegrity
  return graph

end AndInverter.Aiger
