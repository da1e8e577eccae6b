import AndInverter.Graph.Basic

namespace AndInverter.Graph

/-! Replacing a gate by a literal. Every consumer of the gate reads the literal
instead, through the inverter that it read the gate with; the gate leaves the
fanouts of its fanins, hands its own fanouts over, and becomes inactive. The
literal must not read the gate, or a cycle arises. -/

/-- What may be replaced: an active gate, by an active node other than itself
that is no output. Gives the gate's node. -/
def checkReplacement (replacement : Literal) (gate : Nat) (graph : Graph) : Result Node := do
  if replacement.node = gate then throw (.defect (.replacedByItself gate))
  let old ← graph.node gate
  if !old.kind.isGate then throw (.notGate gate)
  if !old.active then throw (.defect (.replacedInactive gate))
  let target ← graph.node replacement.node
  if !target.active || target.kind.isOutput then
    throw (.defect (.unusableReplacement gate replacement))
  return old

def redirect (replacement : Literal) (gate : Nat) (fanin : Literal) : Literal :=
  if fanin.node = gate then replacement.xor fanin.inverted else fanin

/-- The change of one node when `gate` is replaced; `fanouts` are the edges that
leave the gate. -/
def replaceInNode (replacement : Literal) (gate : Nat) (fanouts : List Literal)
    (id : Nat) (node : Node) : Node :=
  { node with
    kind :=
      if fanouts.any (·.node = id) then node.kind.mapFanins (redirect replacement gate)
      else node.kind
    fanouts :=
      if id = gate then []
      else
        let others := node.fanouts.filter (·.node ≠ gate)
        if id = replacement.node then others ++ fanouts.map (·.xor replacement.inverted)
        else others
    active := node.active && id ≠ gate }

def replace (replacement : Literal) (gate : Nat) (graph : Graph) : Result Graph := do
  let old ← graph.checkReplacement replacement gate
  return graph.mapNodes (replaceInNode replacement gate old.fanouts)

theorem size_replace {replacement : Literal} {gate : Nat} {graph replaced : Graph}
    (success : graph.replace replacement gate = .ok replaced) : replaced.size = graph.size := by
  unfold replace at success
  cases check : graph.checkReplacement replacement gate with
  | error failure => simp [check, bind, Except.bind] at success
  | ok old =>
      simp only [check, bind, Except.bind, pure, Except.pure, Except.ok.injEq] at success
      rw [← success, size_mapNodes]

end AndInverter.Graph
