import AndInverter.Proofs.Graph.Construction
import AndInverter.Proofs.Passes.Progress

namespace AndInverter

/-! The normal form of simplification. When a gate is judged, its fanins are final: whatever
they were merged into was merged before, so one pass finishes every cascade. No gate that the
outputs see in the end reads the constant, or one node twice, and simplifying once more
changes nothing. -/

namespace Graph

/-- No gate that the outputs see reads the constant, or one node twice. -/
def Simplified (graph : Graph) : Prop :=
  ∀ id left right, graph.Observed id →
    (graph.node? id).map Node.kind = some (.gate left right) →
      left.node ≠ 0 ∧ right.node ≠ 0 ∧ left.node ≠ right.node

end Graph

open PostOrder

theorem trivialGate?_eq_none_iff {left right : Literal} :
    trivialGate? left right = none ↔ left.node ≠ 0 ∧ right.node ≠ 0 ∧ left.node ≠ right.node := by
  simp only [trivialGate?, ne_eq, Literal.node_eq_iff, Literal.node_eq_zero_iff,
    Bool.or_eq_true, decide_eq_true_eq, Literal.isOpposite_iff]
  split_ifs <;> grind

namespace Graph

def SimplifiedAmong (graph : Graph) (seen : List Nat) : Prop :=
  ∀ id ∈ seen, graph.isActive id = true → ∀ left right,
    (graph.node? id).map Node.kind = some (.gate left right) → trivialGate? left right = none

namespace SimplifiedAmong

variable {memory after : Unit} {graph replaced : Graph} {seen : List Nat} {id : Nat}

theorem skip (simplified : graph.SimplifiedAmong seen)
    (judged : simplification.judgeNode memory id graph = (none, after)) :
    graph.SimplifiedAmong (id :: seen) := by
  intro other member active left right kind
  rcases List.mem_cons.mp member with rfl | inside
  · rw [Pass.judgeNode, kind] at judged
    exact congrArg Prod.fst judged
  · exact simplified other inside active left right kind

theorem replace (simplified : graph.SimplifiedAmong seen) (wellFormed : graph.WellFormed)
    (ordered : Ordered graph seen) (fresh : ¬PostOrder.Settled seen id) {survivor : Literal}
    (success : graph.replace survivor id = .ok replaced) :
    replaced.SimplifiedAmong (id :: seen) := by
  intro other member active left right kind
  rw [isActive_replace success, Bool.and_eq_true, decide_eq_true_eq] at active
  rcases List.mem_cons.mp member with rfl | inside
  · exact absurd rfl active.2
  · rw [wellFormed.kind_replace_of_not_reads success
      (ordered.not_reads fresh inside active.1)] at kind
    exact simplified other inside active.1 left right kind

end SimplifiedAmong

end Graph

theorem settled_of_judgeNode {memory after : Unit} {graph : Graph} {seen : List Nat} {id : Nat}
    {survivor : Literal} (wellFormed : graph.WellFormed) (yielded : Yielded graph seen id)
    (judged : simplification.judgeNode memory id graph = (some survivor, after)) :
    Settled seen survivor.node ∧ ∃ node, graph.node? survivor.node = some node ∧
      node.active = true ∧ node.kind.isOutput = false := by
  rcases Pass.gate_of_judgeNode judged with ⟨node, left, right, found, kind, verdict⟩
  have fanins : graph.fanins id = [left, right] := by
    rw [Graph.fanins_of_node? found, kind]
    rfl
  have settled : ∀ edge ∈ [left, right], Settled seen edge.node ∧
      ∃ node, graph.node? edge.node = some node ∧ node.active = true ∧
        node.kind.isOutput = false := by
    intro edge member
    have reads : graph.Reads id edge.node := Graph.reads_of_mem (fanins ▸ member)
    exact ⟨yielded.fanins edge.node reads, wellFormed.fanins id edge.node yielded.active reads⟩
  rcases trivialGate?_cases (congrArg Prod.fst verdict) with
    ⟨-, rfl⟩ | ⟨-, rfl⟩ | ⟨-, rfl⟩ | ⟨-, rfl⟩
  · exact settled survivor (by simp)
  · exact settled survivor (by simp)
  · rcases wellFormed.constant with ⟨node, found, isConstant, active⟩
    exact ⟨.inl rfl, node, found, active, by rw [isConstant]; rfl⟩
  · exact settled survivor (by simp)

theorem orderly_simplification :
    simplification.Orderly fun _ => Graph.SimplifiedAmong where
  initial _ _ member := nomatch member
  skip _ _ _ simplified judged := simplified.skip judged
  settled wellFormed yielded _ judged := settled_of_judgeNode wellFormed yielded judged
  merge wellFormed ordered yielded simplified judged success :=
    simplified.replace wellFormed ordered
      (Pass.Orderly.fresh_of_judgeNode wellFormed yielded judged) success

theorem simplified_of_ends {graph final : Graph}
    (ends : Pass.Ends (fun (_ : Unit) => Graph.SimplifiedAmong) graph final) :
    final.Simplified := by
  rcases ends.knows with ⟨memory, seen, simplified, settled⟩
  intro id left right observed kind
  apply trivialGate?_eq_none_iff.mp
  rcases settled id observed with rfl | member
  · rcases ends.wellFormed.constant with ⟨node, found, isConstant, -⟩
    rw [found, Option.map_some, isConstant] at kind
    cases kind
  · exact simplified id member (ends.wellFormed.isActive_of_observed observed) left right kind

theorem Graph.Simplified.run_eq {graph : Graph} (simplified : graph.Simplified)
    (wellFormed : graph.WellFormed) :
    simplification.run graph = ⟨graph, [.note (.simplified 0)], .ok 0⟩ := by
  apply orderly_simplification.run_idle wellFormed
  intro memory seen id yielded observed among
  rw [Pass.judgeNode]
  split
  · rename_i left right kind
    exact trivialGate?_eq_none_iff.mpr (simplified id left right yielded.observed kind)
  · rfl

/-- Simplification never fails on a well-formed graph. It counts the gates that it takes out
of service, it leaves the graph simplified, and once more it does nothing. -/
theorem simplification_normalizes {graph : Graph} (wellFormed : graph.WellFormed) :
    let outcome := simplification.run graph
    let repeated := simplification.run outcome.graph
    outcome.result = .ok (graph.retired outcome.graph).length ∧ outcome.graph.Simplified ∧
      repeated.result = .ok 0 ∧ repeated.journal.events = [] ∧
        repeated.graph = outcome.graph := by
  intro outcome repeated
  rcases orderly_simplification.run wellFormed with ⟨counted, ends⟩
  have simplified : outcome.graph.Simplified := simplified_of_ends ends
  have idle : repeated = ⟨outcome.graph, [.note (.simplified 0)], .ok 0⟩ :=
    simplified.run_eq ends.wellFormed
  rw [idle]
  exact ⟨counted, simplified, rfl, rfl, rfl⟩

/-- A gate that reads a node and its opposite, one that reads the opposite of this gate and an
input, and one that reads that gate and the same input. -/
def Graph.cascade : Graph where
  slots := #[
    some { kind := .constant },
    some { kind := .input, fanouts := [.plain 3, ⟨3, true⟩] },
    some { kind := .input, fanouts := [.plain 4, .plain 5] },
    some { kind := .gate (.plain 1) ⟨1, true⟩, fanouts := [⟨4, true⟩] },
    some { kind := .gate ⟨3, true⟩ (.plain 2), fanouts := [.plain 5] },
    some { kind := .gate (.plain 4) (.plain 2), fanouts := [.plain 6] },
    some { kind := .output (.plain 5) }]
  inputs := [1, 2]
  outputs := [6]

theorem Graph.consistent_cascade : Graph.cascade.Consistent := by
  have input := empty.grows_addInput.consistent consistent_empty (by decide)
  have inputs := empty.addInput.2.grows_addInput.consistent input (by decide)
  have lowest := grows_addGateAt (show addGateAt 3 (.plain 1) ⟨1, true⟩ _ = .ok _ from rfl)
    |>.consistent inputs (by decide)
  have middle := grows_addGateAt (show addGateAt 4 ⟨3, true⟩ (.plain 2) _ = .ok _ from rfl)
    |>.consistent lowest (by decide)
  have highest := grows_addGateAt (show addGateAt 5 (.plain 4) (.plain 2) _ = .ok _ from rfl)
    |>.consistent middle (by decide)
  exact grows_addOutput (show addOutput (.plain 5) _ = .ok _ from rfl)
    |>.consistent highest (by decide)

/-- The lowest gate of the cascade is low, so the next one is the input that it reads, and the
last one reads this input twice. One pass merges all three. -/
theorem simplification_normalizes_cascade :
    let outcome := simplification.run Graph.cascade
    Graph.cascade.WellFormed ∧ outcome.result = .ok 3 ∧
      Graph.cascade.retired outcome.graph = [3, 4, 5] ∧ outcome.graph.Simplified ∧
        (simplification.run outcome.graph).graph = outcome.graph := by
  intro outcome
  have wellFormed := Graph.consistent_cascade.toWellFormed
  have normal := simplification_normalizes wellFormed
  have retired : Graph.cascade.retired outcome.graph = [3, 4, 5] := by decide +kernel
  refine ⟨wellFormed, ?_, retired, normal.2.1, normal.2.2.2.2⟩
  exact normal.1.trans (by rw [retired]; rfl)

end AndInverter
