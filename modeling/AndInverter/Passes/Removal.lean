import AndInverter.Graph.Edit
import AndInverter.Passes.Pass
import AndInverter.Passes.Sweep

namespace AndInverter.Graph

/-! The sweep in place. The dead gates are told first; then they are removed one after the
other, and each is reported once it has gone. -/

def removeEach : List Nat → Graph → Outcome Unit
  | [], graph => ⟨graph, [], .ok ()⟩
  | gate :: gates, graph =>
      match (Edit.remove gate).run graph with
      | .error failure left => ⟨left, [], .error failure⟩
      | .ok () left => (removeEach gates left).after [.event (.sweep gate)]

def sweepInPlace (graph : Graph) : Outcome (List Nat) :=
  let dead := graph.deadGates
  let removal := removeEach dead graph
  let summary : Journal := if dead.isEmpty then [] else [.note (.swept dead.length)]
  match removal.result with
  | .error failure => ⟨removal.graph, removal.journal, .error failure⟩
  | .ok () => ⟨removal.graph, removal.journal ++ summary, .ok dead⟩

end AndInverter.Graph
