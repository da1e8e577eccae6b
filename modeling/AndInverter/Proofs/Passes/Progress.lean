import AndInverter.Proofs.Passes.StructuralHash
import AndInverter.Proofs.Traversal.Rewiring

namespace AndInverter

/-! Runs that reach the end. A pass that merges a gate only into something settled never
fails, since all that it asks of a replacement is there; each of its merges takes one gate
out of service, and what it knows of the gates that it has passed is true of all that the
outputs see when it is over. -/

namespace Graph

variable {graph before middle after replaced : Graph} {survivor : Literal} {gate : Nat}

def retired (before after : Graph) : List Nat :=
  before.activeGates.filter fun id => !after.isActive id

namespace Frame

theorem activeGates (frame : before.Frame after) :
    after.activeGates = before.activeGates.filter after.isActive := by
  rw [Graph.activeGates, Graph.activeGates, frame.ids, List.filter_filter]
  apply List.filter_congr
  intro id _
  rw [frame.isGate]
  cases active : after.isActive id with
  | false => simp
  | true => simp [frame.isActive active]

theorem length_retired (frame : before.Frame after) :
    (before.retired after).length + after.activeGates.length = before.activeGates.length := by
  rw [frame.activeGates, retired, Nat.add_comm]
  exact List.length_eq_length_filter_add after.isActive |>.symm

theorem length_retired_trans (early : before.Frame middle) (late : middle.Frame after) :
    (before.retired after).length =
      (before.retired middle).length + (middle.retired after).length := by
  have first := early.length_retired
  have second := late.length_retired
  have both := (early.trans late).length_retired
  omega

end Frame

@[simp] theorem retired_self (graph : Graph) : graph.retired graph = [] := by
  rw [retired, List.filter_eq_nil_iff]
  intro id member
  simp [(mem_activeGates.mp member).2]

theorem retired_replace (success : graph.replace survivor gate = .ok replaced) :
    graph.retired replaced = [gate] := by
  rcases replace_eq_ok_iff.mp success with ⟨old, replaceable, -⟩
  have member : gate ∈ graph.activeGates :=
    mem_activeGates.mpr ⟨(isGate_of_node? replaceable.found).trans replaceable.isGate,
      (isActive_of_node? replaceable.found).trans replaceable.active⟩
  have same : graph.retired replaced = graph.activeGates.filter fun id => id == gate := by
    apply List.filter_congr
    intro id inside
    rw [isActive_replace success, (mem_activeGates.mp inside).2, Bool.eq_iff_iff]
    simp
  have nodup : graph.activeGates.Nodup := graph.nodup_ids.filter _
  rw [same, List.filter_beq, List.count_eq_one_of_mem nodup member, List.replicate_one]

end Graph

open PostOrder

namespace Pass

variable {Memory : Type} {pass : Pass Memory} {graph : Graph} {seen : List Nat} {id : Nat}
  {traversal : PostOrder} {memory after : Memory}

/-- A pass that merges only into what is settled. `Knows` is what the pass knows of the nodes
that it has seen, from what it remembers of them. -/
structure Orderly (pass : Pass Memory) (Knows : Memory → Graph → List Nat → Prop) : Prop where
  initial : ∀ graph, Knows pass.initial graph []
  skip : ∀ {memory after : Memory} {graph : Graph} {seen : List Nat} {id : Nat},
    graph.WellFormed → Ordered graph seen → Yielded graph seen id → Knows memory graph seen →
      pass.judgeNode memory id graph = (none, after) → Knows after graph (id :: seen)
  settled : ∀ {memory after : Memory} {graph : Graph} {seen : List Nat} {id : Nat}
    {survivor : Literal}, graph.WellFormed → Yielded graph seen id → Knows memory graph seen →
      pass.judgeNode memory id graph = (some survivor, after) → Settled seen survivor.node ∧
        ∃ node, graph.node? survivor.node = some node ∧ node.active = true ∧
          node.kind.isOutput = false
  merge : ∀ {memory after : Memory} {graph replaced : Graph} {seen : List Nat} {id : Nat}
    {survivor : Literal}, graph.WellFormed → Ordered graph seen → Yielded graph seen id →
      Knows memory graph seen → pass.judgeNode memory id graph = (some survivor, after) →
        graph.replace survivor id = .ok replaced → Knows after replaced (id :: seen)

/-- Whatever a pass may know of a graph, it merges none of the nodes. -/
def Idle (pass : Pass Memory) (Knows : Memory → Graph → List Nat → Prop) (graph : Graph) : Prop :=
  ∀ memory seen id, Yielded graph seen id → (∀ other ∈ seen, graph.Observed other) →
    Knows memory graph seen → (pass.judgeNode memory id graph).1 = none

/-- Where a run ends: all that the outputs see was seen by the pass. -/
structure Ends (Knows : Memory → Graph → List Nat → Prop) (graph final : Graph) : Prop where
  wellFormed : final.WellFormed
  frame : graph.Frame final
  knows : ∃ memory seen, Knows memory final seen ∧
    ∀ id, final.Observed id → Settled seen id

namespace Orderly

variable {Knows : Memory → Graph → List Nat → Prop} (orderly : pass.Orderly Knows)

theorem fresh_of_judgeNode (wellFormed : graph.WellFormed) (yielded : Yielded graph seen id)
    {survivor : Literal} (judged : pass.judgeNode memory id graph = (some survivor, after)) :
    ¬Settled seen id := by
  rintro (rfl | member)
  · rcases gate_of_judgeNode judged with ⟨node, left, right, found, kind, -⟩
    have isGate := wellFormed.isGate_constant
    rw [Graph.isGate_of_node? found, kind] at isGate
    cases isGate
  · exact yielded.fresh member

include orderly

theorem replace_eq_ok (wellFormed : graph.WellFormed) (yielded : Yielded graph seen id)
    (knows : Knows memory graph seen) {survivor : Literal}
    (judged : pass.judgeNode memory id graph = (some survivor, after)) :
    ∃ replaced, graph.replace survivor id = .ok replaced := by
  rcases gate_of_judgeNode judged with ⟨node, left, right, found, kind, -⟩
  rcases orderly.settled wellFormed yielded knows judged with ⟨settled, target⟩
  refine ⟨_, Graph.replace_eq_ok_iff.mpr ⟨node, ?_, rfl⟩⟩
  exact {
    different := by
      intro same
      exact fresh_of_judgeNode wellFormed yielded judged (same ▸ settled)
    found
    isGate := by rw [kind]; rfl
    active := (Graph.isActive_of_node? found).symm.trans yielded.active
    target }

theorem runFrom (wellFormed : graph.WellFormed) (advancing : Advancing graph seen traversal)
    (knows : Knows memory graph seen) (merges : Nat) :
    let outcome := pass.runFrom traversal memory merges graph
    outcome.result = .ok (merges + (graph.retired outcome.graph).length) ∧
      Ends Knows graph outcome.graph := by
  induction traversal, memory, merges, graph using runFrom.induct pass generalizing seen with
  | case1 traversal memory merges graph rest finished =>
      rw [runFrom_eq, finished]
      refine ⟨by simp, wellFormed, .refl graph, memory, seen, knows, ?_⟩
      exact fun id => advancing.next_eq_none wellFormed finished
  | case2 traversal memory merges graph id rest found after judged induction =>
      rw [runFrom_eq, found]
      simp only [judged]
      rcases advancing.next_eq_some wellFormed found with ⟨yielded, later⟩
      exact induction wellFormed later
        (orderly.skip wellFormed advancing.ordered yielded knows judged)
  | case3 traversal memory merges graph id rest found survivor after judged failure refused =>
      rcases advancing.next_eq_some wellFormed found with ⟨yielded, -⟩
      rcases orderly.replace_eq_ok wellFormed yielded knows judged with ⟨replaced, success⟩
      rw [refused] at success
      cases success
  | case4 traversal memory merges graph id rest found survivor after judged replaced accepted
      induction =>
      rw [runFrom_eq, found]
      simp only [judged, accepted, Outcome.after]
      rcases advancing.next_eq_some wellFormed found with ⟨yielded, later⟩
      have settled := (orderly.settled wellFormed yielded knows judged).1
      have fresh := fresh_of_judgeNode wellFormed yielded judged
      have unseen := advancing.ordered.not_sees wellFormed settled fresh
      have frame := wellFormed.frame_replace accepted
      rcases induction (wellFormed.wellFormed_replace accepted unseen)
        (later.replace wellFormed accepted fresh settled)
        (orderly.merge wellFormed advancing.ordered yielded knows judged accepted) with
        ⟨success, ends⟩
      refine ⟨?_, ends.wellFormed, frame.trans ends.frame, ends.knows⟩
      rw [success, frame.length_retired_trans ends.frame, Graph.retired_replace accepted,
        List.length_singleton, Nat.add_assoc]

theorem run (wellFormed : graph.WellFormed) :
    (pass.run graph).result = .ok (graph.retired (pass.run graph).graph).length ∧
      Ends Knows graph (pass.run graph).graph := by
  have ends := orderly.runFrom wellFormed (advancing_ofOutputs graph) (orderly.initial graph) 0
  simp only [Nat.zero_add] at ends
  exact ends

theorem runFrom_idle (wellFormed : graph.WellFormed) (idle : pass.Idle Knows graph)
    (advancing : Advancing graph seen traversal) (knows : Knows memory graph seen)
    (observed : ∀ other ∈ seen, graph.Observed other) (merges : Nat) :
    pass.runFrom traversal memory merges graph =
      ⟨graph, [.note (pass.summary merges)], .ok merges⟩ := by
  induction traversal, memory, merges, graph using runFrom.induct pass generalizing seen with
  | case1 traversal memory merges graph rest finished => rw [runFrom_eq, finished]
  | case2 traversal memory merges graph id rest found after judged induction =>
      rw [runFrom_eq, found]
      simp only [judged]
      rcases advancing.next_eq_some wellFormed found with ⟨yielded, later⟩
      apply induction wellFormed idle later
        (orderly.skip wellFormed advancing.ordered yielded knows judged)
      intro other member
      rcases List.mem_cons.mp member with rfl | inside
      · exact yielded.observed
      · exact observed other inside
  | case3 traversal memory merges graph id rest found survivor after judged
  | case4 traversal memory merges graph id rest found survivor after judged =>
      have nothing := idle _ _ _ (advancing.next_eq_some wellFormed found).1 observed knows
      rw [judged] at nothing
      cases nothing

theorem run_idle (wellFormed : graph.WellFormed) (idle : pass.Idle Knows graph) :
    pass.run graph = ⟨graph, [.note (pass.summary 0)], .ok 0⟩ :=
  orderly.runFrom_idle wellFormed idle (advancing_ofOutputs graph) (orderly.initial graph)
    (fun _ member => absurd member List.not_mem_nil) 0

end Orderly

end Pass

end AndInverter
