import AndInverter.Proofs.Aiger.Soundness
import AndInverter.Proofs.Graph.InPlace
import AndInverter.Proofs.Passes.Removal
import AndInverter.Proofs.Transformation

namespace AndInverter.Graph

/-! Graphs that are built and worked on by any callers. Nodes may be added on top of gates that
have gone, so such a graph need not be well-formed; it is tidy. A construction that succeeds
keeps a graph intact exactly where it adds a node on top of active ones. -/

/-- The graphs that any calls lead to, as long as no gate is replaced by what depends on it. A
call that fails leaves what it leaves. -/
inductive Constructible : Graph → Prop
  | new : Constructible empty
  | read {bytes : Text.Bytes} {graph : Graph} (success : Aiger.read bytes = .ok graph) :
      Constructible graph
  | reserve {graph : Graph} (largest : Nat) (constructible : Constructible graph) :
      Constructible ((Edit.step (Graph.reserve largest)).leave graph)
  | construct {graph : Graph} (construction : Construction) (constructible : Constructible graph) :
      Constructible (construction.edit.leave graph)
  | setLabel {graph : Graph} (id : Nat) (label : String) (constructible : Constructible graph) :
      Constructible ((Edit.step (Graph.setLabel id label)).leave graph)
  | replace {graph : Graph} {replacement : Literal} {gate : Nat}
      (constructible : Constructible graph)
      (unseen : graph.coneContains replacement.node gate = false) :
      Constructible ((Edit.replace replacement gate).leave graph)
  | sweep {graph : Graph} (constructible : Constructible graph) :
      Constructible graph.sweepInPlace.graph
  | transform {graph : Graph} (step : Transformation) (constructible : Constructible graph) :
      Constructible (step.apply graph)

variable {graph : Graph}

namespace Tidy

variable (tidy : graph.Tidy)

include tidy

theorem leave_step {change : Graph → Result Graph}
    (same : ∀ changed, change graph = .ok changed → graph.SameWiring changed) :
    ((Edit.step change).leave graph).Tidy := by
  rw [Edit.leave]
  cases changed : change graph with
  | error failure =>
      rw [Edit.run_step_of_error changed]
      exact tidy
  | ok after =>
      rw [Edit.run_step_of_ok changed]
      exact tidy.of_sameWiring (same after changed)

theorem leave_construct (construction : Construction) :
    (construction.edit.leave graph).Tidy := by
  rw [Edit.leave, construction.run_edit]
  cases applied : construction.apply graph with
  | error failure => exact tidy
  | ok pair => exact tidy.grows (Construction.grows applied).2

theorem leave_replace {replacement : Literal} {gate : Nat}
    (unseen : graph.coneContains replacement.node gate = false) :
    ((Edit.replace replacement gate).leave graph).Tidy := by
  rw [Edit.leave, tidy.run_replace]
  cases success : graph.replace replacement gate with
  | error failure => exact tidy
  | ok replaced =>
      refine tidy.replace success ?_
      rwa [← coneContains_iff, Bool.not_eq_true]

theorem leave_sweep : graph.sweepInPlace.graph.Tidy := by
  rw [tidy.sweepInPlace_eq]
  exact tidy.sweep

end Tidy

theorem Constructible.tidy (constructible : graph.Constructible) : graph.Tidy := by
  induction constructible with
  | new => exact consistent_empty.tidy
  | read success => exact (Aiger.consistent_of_read success).tidy
  | reserve largest _ tidy => exact tidy.leave_step fun _ => sameWiring_reserve
  | construct construction _ tidy => exact tidy.leave_construct construction
  | setLabel id label _ tidy => exact tidy.leave_step fun _ => sameWiring_setLabel
  | replace _ unseen tidy => exact tidy.leave_replace unseen
  | sweep _ tidy => exact tidy.leave_sweep
  | transform step _ tidy =>
      exact invariant_tidy.apply step (step.uses_of_forall fun _ _ => Scan.keeps_tidy) tidy

/-- A construction of an intact graph succeeds exactly where what it asks for is there, and adds
one node; elsewhere it changes nothing. The graph stays intact where the new node reads active
ones only. Where it reads one that has gone, the construction succeeds all the same, and the
graph is not intact. Memory is taken as unlimited, and the literals of ids from 2 ^ 63 on as if
they could be packed (`Graph.reserve`, `Graph.connect`). -/
theorem Constructible.run_construction (constructible : graph.Constructible)
    (intact : graph.checkIntegrity = .ok ()) (construction : Construction) :
    ((∃ id after, construction.edit.run graph = .ok id after) ↔ construction.Fits graph) ∧
    (∀ failure left, construction.edit.run graph = .error failure left → left = graph) ∧
    ∀ id after, construction.edit.run graph = .ok id after →
      id = construction.place graph ∧ graph.Grows id construction.kind after ∧
        (after.checkIntegrity = .ok () ↔
          ∀ edge ∈ construction.kind.fanins, graph.isActive edge.node = true) := by
  rw [← Construction.exists_apply_iff, construction.run_edit]
  cases applied : construction.apply graph with
  | error failure =>
      refine ⟨⟨fun ⟨_, _, impossible⟩ => (nomatch impossible),
        fun ⟨_, _, impossible⟩ => nomatch impossible⟩, ?_, fun _ _ impossible => nomatch impossible⟩
      intro _ _ equal
      cases equal
      rfl
  | ok pair =>
      refine ⟨⟨fun _ => ⟨pair.1, pair.2, rfl⟩, fun _ => ⟨pair.1, pair.2, rfl⟩⟩,
        fun _ _ impossible => (nomatch impossible), ?_⟩
      intro id after equal
      cases equal
      rcases Construction.grows applied with ⟨place, grows⟩
      have linked := constructible.tidy.toLinked
      have wellFormed := linked.wellFormed_of_checkIntegrity intact
      refine ⟨place, grows, ?_⟩
      rw [(grows.linked linked).checkIntegrity_eq_ok_iff, grows.wellFormed_iff wellFormed]

/-- A construction that fails, and one that succeeds, on two inputs and a gate over them. -/
theorem run_construction_pair :
    let graph := [.input, .input, .gate (.plain 1) (.plain 2)].foldl
      (fun graph (construction : Construction) => construction.edit.leave graph) empty
    graph.Constructible ∧ graph.checkIntegrity = .ok () ∧
      (¬∃ id after, (Construction.gateAt 2 (.plain 1) (.plain 3)).edit.run graph = .ok id after) ∧
      ∃ after, (Construction.output ⟨3, true⟩).edit.run graph = .ok 4 after ∧
        after.checkIntegrity = .ok () := by
  intro graph
  have constructible : graph.Constructible := Constructible.new.construct .input
    |>.construct .input |>.construct (.gate (.plain 1) (.plain 2))
  have intact : graph.checkIntegrity = .ok () := by decide +kernel
  refine ⟨constructible, intact, ?_, ?_⟩
  · rcases constructible.run_construction intact (.gateAt 2 (.plain 1) (.plain 3)) with ⟨fits, -⟩
    rw [fits]
    rintro ⟨⟨-, -, free⟩, -⟩
    cases free
  · rcases constructible.run_construction intact (.output ⟨3, true⟩) with ⟨fits, -, done⟩
    rcases fits.mpr ⟨_, rfl, rfl⟩ with ⟨id, after, run⟩
    rcases done id after run with ⟨rfl, -, kept⟩
    exact ⟨after, run, kept.mpr (by decide)⟩

def sweptGate : Graph where
  slots := #[
    some { kind := .constant },
    some { kind := .input },
    some { kind := .input },
    some { kind := .gate (.plain 1) (.plain 2), active := false }]
  inputs := [1, 2]
  outputs := []

theorem constructible_sweptGate : sweptGate.Constructible := by
  have same : sweptGate = ((Construction.gate (.plain 1) (.plain 2)).edit.leave
      (Construction.input.edit.leave (Construction.input.edit.leave empty))).sweepInPlace.graph := by
    decide +kernel
  rw [same]
  exact Constructible.new.construct .input |>.construct .input
    |>.construct (.gate (.plain 1) (.plain 2)) |>.sweep

/-- A gate on top of one that was swept is added all the same, and the graph is not intact. -/
theorem run_construction_sweptGate : sweptGate.Constructible ∧
    sweptGate.checkIntegrity = .ok () ∧
      ∃ after, (Construction.gate (.plain 3) (.plain 1)).edit.run sweptGate = .ok 4 after ∧
        after.checkIntegrity = .error (.defect (.inactiveFanin 4 (.plain 3))) :=
  ⟨constructible_sweptGate, by decide +kernel, _, rfl, by decide +kernel⟩

end AndInverter.Graph
