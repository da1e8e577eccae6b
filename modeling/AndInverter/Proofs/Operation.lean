import AndInverter.Proofs.Aiger.Soundness
import AndInverter.Proofs.Transformation

namespace AndInverter

/-! Graphs that the operations lead to. A graph begins empty, or is read from a file; then
any operations follow in any order, and each that fails leaves what it leaves. -/

inductive Operation : Type 1
  | reserve (largest : Nat)
  | addInput
  | addInputAt (id : Nat)
  | addGate (left right : Literal)
  | addGateAt (id : Nat) (left right : Literal)
  | addOutput (driver : Literal)
  | setLabel (id : Nat) (label : String)
  | replace (replacement : Literal) (gate : Nat)
  | transform (step : Transformation)

namespace Operation

def settle (graph : Graph) : Result Graph → Graph
  | .ok changed => changed
  | .error _ => graph

def apply (graph : Graph) : Operation → Graph
  | .reserve largest => settle graph (graph.reserve largest)
  | .addInput => graph.addInput.2
  | .addInputAt id => settle graph (graph.addInputAt id)
  | .addGate left right => settle graph ((graph.addGate left right).map Prod.snd)
  | .addGateAt id left right => settle graph (graph.addGateAt id left right)
  | .addOutput driver => settle graph ((graph.addOutput driver).map Prod.snd)
  | .setLabel id label => settle graph (graph.setLabel id label)
  | .replace replacement gate => settle graph (graph.replace replacement gate)
  | .transform step => step.apply graph

/-- What is asked of a caller: a new node reads active nodes alone, and what replaces a
gate does not have the gate in its cone. -/
def Allowed (graph : Graph) : Operation → Prop
  | .addGate left right => (∃ added, graph.addGate left right = .ok added) →
      graph.isActive left.node = true ∧ graph.isActive right.node = true
  | .addGateAt id left right => (∃ added, graph.addGateAt id left right = .ok added) →
      graph.isActive left.node = true ∧ graph.isActive right.node = true
  | .addOutput driver => (∃ added, graph.addOutput driver = .ok added) →
      graph.isActive driver.node = true
  | .replace replacement gate => graph.coneContains replacement.node gate = false
  | _ => True

end Operation

namespace Graph

variable {graph after : Graph}

theorem consistent_settle {result : Result Graph} (consistent : graph.Consistent)
    (success : ∀ after, result = .ok after → after.Consistent) :
    (Operation.settle graph result).Consistent := by
  cases result with
  | error failure => exact consistent
  | ok after => exact success after rfl

theorem Grows.consistent_gate {id : Nat} {left right : Literal}
    (grows : graph.Grows id (.gate left right) after) (consistent : graph.Consistent)
    (active : graph.isActive left.node = true ∧ graph.isActive right.node = true) :
    after.Consistent := by
  apply grows.consistent consistent
  intro edge member
  rcases List.mem_pair.mp member with equal | equal
  · exact equal ▸ active.1
  · exact equal ▸ active.2

theorem of_map_snd_eq_ok {α : Type} {result : Result (α × Graph)}
    (success : result.map Prod.snd = .ok after) : ∃ id, result = .ok (id, after) := by
  cases result with
  | error failure => cases success
  | ok pair =>
      cases success
      exact ⟨pair.1, rfl⟩

theorem Consistent.transform (consistent : graph.Consistent) (step : Transformation) :
    (step.apply graph).Consistent :=
  invariant_consistent.apply step (step.uses_of_forall fun _ _ => Scan.keeps_consistent) consistent

theorem Consistent.apply (consistent : graph.Consistent) {operation : Operation}
    (allowed : operation.Allowed graph) : (operation.apply graph).Consistent := by
  cases operation with
  | reserve largest =>
      exact consistent_settle consistent fun _ success =>
        consistent.of_sameWiring (sameWiring_reserve success)
  | addInput => exact graph.grows_addInput.consistent consistent fun _ member => nomatch member
  | addInputAt id =>
      exact consistent_settle consistent fun _ success =>
        (grows_addInputAt success).consistent consistent fun _ member => nomatch member
  | addGate left right =>
      apply consistent_settle consistent
      intro after success
      rcases of_map_snd_eq_ok success with ⟨id, added⟩
      exact (grows_addGate added).consistent_gate consistent (allowed ⟨_, added⟩)
  | addGateAt id left right =>
      exact consistent_settle consistent fun _ success =>
        (grows_addGateAt success).consistent_gate consistent (allowed ⟨_, success⟩)
  | addOutput driver =>
      apply consistent_settle consistent
      intro after success
      rcases of_map_snd_eq_ok success with ⟨id, added⟩
      apply (grows_addOutput added).consistent consistent
      intro edge member
      rw [List.mem_singleton.mp member]
      exact allowed ⟨_, added⟩
  | setLabel id label =>
      exact consistent_settle consistent fun _ success =>
        consistent.of_sameWiring (sameWiring_setLabel success)
  | replace replacement gate =>
      apply consistent_settle consistent
      intro after success
      apply consistent.replace success
      intro sees
      rw [Operation.Allowed, coneContains_iff.mpr sees] at allowed
      cases allowed
  | transform step => exact consistent.transform step

inductive Reachable : Graph → Prop
  | new : Reachable empty
  | read {bytes : Text.Bytes} {graph : Graph} (success : Aiger.read bytes = .ok graph) :
      Reachable graph
  | step {graph : Graph} (operation : Operation) (reachable : Reachable graph)
      (allowed : operation.Allowed graph) : Reachable (operation.apply graph)

/-- Whatever the operations, their order and their results, and whatever back ends answer:
every graph that arises is consistent. -/
theorem consistent_of_reachable (reachable : graph.Reachable) : graph.Consistent := by
  induction reachable with
  | new => exact consistent_empty
  | read success => exact Aiger.consistent_of_read success
  | step operation _ allowed consistent => exact consistent.apply allowed

theorem consistent_after_hashing :
    let graph := [.addInput, .addInput, .addGate (.plain 1) (.plain 2),
      .addGate (.plain 2) (.plain 1), .addOutput (.plain 4), .replace (.plain 3) 4,
      .transform .hash].foldl Operation.apply empty
    graph.Reachable ∧ graph.Consistent := by
  have reachable : Reachable ([.addInput, .addInput, .addGate (.plain 1) (.plain 2),
      .addGate (.plain 2) (.plain 1), .addOutput (.plain 4), .replace (.plain 3) 4,
      .transform .hash].foldl Operation.apply empty) := by
    refine .step (.transform .hash) (.step (.replace (.plain 3) 4) (.step (.addOutput (.plain 4))
      (.step (.addGate (.plain 2) (.plain 1)) (.step (.addGate (.plain 1) (.plain 2))
        (.step .addInput (.step .addInput .new trivial) trivial) ?_) ?_) ?_) ?_) trivial
    · exact fun _ => by decide
    · exact fun _ => by decide
    · exact fun _ => by decide
    · change coneContains _ _ _ = false
      decide +kernel
  exact ⟨reachable, consistent_of_reachable reachable⟩

end Graph

end AndInverter
