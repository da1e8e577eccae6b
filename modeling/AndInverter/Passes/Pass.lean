import AndInverter.Graph.Replacement
import AndInverter.Journal
import AndInverter.Traversal.PostOrder

namespace AndInverter

/-! Passes. A pass visits the gates that the outputs see, fanins first,
and may merge each into a literal. The graph changes under the visit, so a gate
is judged with the fanins that the earlier merges left it. -/

/-- What is left of a run: the graph and the journal are there even when the run
fails half way. -/
structure Outcome (α : Type) where
  graph : Graph
  journal : Journal
  result : Result α

def Outcome.after {α : Type} (earlier : Journal) (outcome : Outcome α) : Outcome α :=
  { outcome with journal := earlier ++ outcome.journal }

structure Pass (Memory : Type) where
  cause : Cause
  initial : Memory
  /-- what a gate that reads two literals is merged into, if anything, and what is
  remembered from then on -/
  judge : Memory → (gate : Nat) → (left right : Literal) → Option Literal × Memory
  announcement : (gate : Nat) → (survivor : Literal) → Note
  summary : (merges : Nat) → Note

namespace Pass

variable {Memory : Type}

def judgeNode (pass : Pass Memory) (memory : Memory) (id : Nat) (graph : Graph) :
    Option Literal × Memory :=
  match (graph.node? id).map Node.kind with
  | some (.gate left right) => pass.judge memory id left right
  | _ => (none, memory)

def runFrom (pass : Pass Memory) (traversal : PostOrder) (memory : Memory) (merges : Nat)
    (graph : Graph) : Outcome Nat :=
  match _ : traversal.next graph with
  | (none, _) => ⟨graph, [.note (pass.summary merges)], .ok merges⟩
  | (some id, traversal) =>
      match pass.judgeNode memory id graph with
      | (none, memory) => runFrom pass traversal memory merges graph
      | (some survivor, memory) =>
          match _ : graph.replace survivor id with
          | .error failure => ⟨graph, [.note (pass.announcement id survivor)], .error failure⟩
          | .ok replaced =>
              (runFrom pass traversal memory (merges + 1) replaced).after
                [.note (pass.announcement id survivor), .event (.merge pass.cause survivor id)]
termination_by traversal.work graph.size
decreasing_by
  · exact PostOrder.work_next_lt (by assumption)
  · rw [Graph.size_replace (by assumption)]
    exact PostOrder.work_next_lt (by assumption)

def run (pass : Pass Memory) (graph : Graph) : Outcome Nat :=
  pass.runFrom (.ofOutputs graph) pass.initial 0 graph

end Pass

end AndInverter
