import AndInverter.Passes.Removal
import AndInverter.Proofs.Graph.Construction
import AndInverter.Proofs.Graph.Edit
import AndInverter.Proofs.Graph.Tidiness

namespace AndInverter.Graph

/-! The sweep in place. To remove gates one after the other is to change every node at once,
and on a well-formed graph that is what a sweep of the graph as a whole does to what counts. -/

variable {graph : Graph}

/-! ## Removing gates -/

/-- A node after some gates have gone, whose fanins are given. -/
def withoutGates (fanins : Nat → List Literal) (gates : List Nat) (id : Nat) (node : Node) :
    Node :=
  if id ∈ gates then { node with active := false, fanouts := [] }
  else node.dropFanouts fun consumer =>
    decide (consumer ∈ gates ∧ id ∈ (fanins consumer).map Literal.node)

theorem fanins_withoutGates (graph : Graph) (gates : List Nat) :
    (graph.mapNodes (withoutGates graph.fanins gates)).fanins = graph.fanins := by
  funext id
  simp only [fanins, node?_mapNodes, Option.map_map]
  congr 2
  funext node
  simp only [Function.comp_apply, withoutGates]
  split <;> rfl

theorem withoutGates_withoutGates (fanins : Nat → List Literal) (first : Nat) (others : List Nat)
    (id : Nat) (node : Node) :
    withoutGates fanins others id (withoutGates fanins [first] id node) =
      withoutGates fanins (first :: others) id node := by
  by_cases later : id ∈ others
  · have all : id ∈ first :: others := List.mem_cons_of_mem first later
    by_cases same : id ∈ [first]
    · simp only [withoutGates, if_pos later, if_pos same, if_pos all]
    · simp only [withoutGates, if_pos later, if_neg same, if_pos all]
      rfl
  · by_cases same : id ∈ [first]
    · have all : id ∈ first :: others := List.mem_cons.mpr (.inl (List.mem_singleton.mp same))
      simp only [withoutGates, if_neg later, if_pos same, if_pos all]
      rfl
    · have all : id ∉ first :: others := by
        rw [List.mem_cons, not_or]
        exact ⟨fun equal => same (List.mem_singleton.mpr equal), later⟩
      simp only [withoutGates, if_neg later, if_neg same, if_neg all,
        Node.dropFanouts_dropFanouts]
      apply Node.dropFanouts_congr
      intro fanout _
      simp only [← Bool.decide_or, List.mem_cons, List.not_mem_nil, or_false, or_and_right]

theorem run_remove {gate : Nat} {old : Node} (found : graph.node? gate = some old)
    (defined : ∀ id ∈ old.fanins.map Literal.node, graph.isDefined id = true) :
    (Edit.remove gate).run graph =
      .ok () (graph.mapNodes (withoutGates graph.fanins [gate])) := by
  have gateDefined := isDefined_of_node? found
  refine (Edit.run_bind_of_ok (Edit.run_inspect_of_ok (node_eq_ok_iff.mpr found))).trans ?_
  refine (Edit.run_bind_of_ok (Edit.run_update gateDefined _)).trans ?_
  refine (Edit.run_bind_of_ok (Edit.run_update ?_ _)).trans ?_
  · rwa [isDefined_modify]
  rw [modify_eq_mapNodes, modify_eq_mapNodes, mapNodes_mapNodes]
  refine (Edit.run_forM_update (Node.dropFanouts_idem _) ?_).trans ?_
  · intro id member
    rw [isDefined_mapNodes]
    exact defined id member
  rw [mapNodes_mapNodes]
  congr 1
  apply mapNodes_congr
  intro id node _
  have read : id ∈ (graph.fanins gate).map Literal.node ↔ id ∈ old.fanins.map Literal.node := by
    rw [fanins_of_node? found]
    rfl
  by_cases same : id = gate
  · have inside : id ∈ [gate] := List.mem_singleton.mpr same
    simp only [withoutGates, if_pos same, if_pos inside]
    split <;> rfl
  · simp only [withoutGates, if_neg same, List.mem_singleton]
    split
    · rename_i fanin
      apply Node.dropFanouts_congr
      intro fanout _
      by_cases leads : fanout.node = gate
      · simp only [leads, read, fanin, and_self]
      · simp only [leads, false_and]
    · rename_i unread
      symm
      apply Node.dropFanouts_eq_self
      intro fanout _
      rw [decide_eq_false_iff_not]
      rintro ⟨leads, reads⟩
      rw [leads, read] at reads
      exact unread reads

theorem removeEach_eq {gates : List Nat} (defined : ∀ gate ∈ gates, graph.isDefined gate = true ∧
      ∀ id ∈ (graph.fanins gate).map Literal.node, graph.isDefined id = true) :
    removeEach gates graph = ⟨graph.mapNodes (withoutGates graph.fanins gates),
      gates.map fun gate => .event (.sweep gate), .ok ()⟩ := by
  induction gates generalizing graph with
  | nil =>
      have unchanged : graph.mapNodes (withoutGates graph.fanins []) = graph := by
        refine (mapNodes_congr fun id node _ => ?_).trans graph.mapNodes_self
        rw [withoutGates, if_neg List.not_mem_nil]
        exact Node.dropFanouts_eq_self fun _ _ => decide_eq_false fun gone => nomatch gone.1
      rw [unchanged]
      rfl
  | cons head tail induction =>
      rcases defined head (List.mem_cons_self ..) with ⟨headDefined, faninsDefined⟩
      rcases Option.isSome_iff_exists.mp headDefined with ⟨old, found⟩
      have removed := run_remove found fun id member =>
        faninsDefined id (by rwa [fanins_of_node? found])
      rw [removeEach, removed]
      simp only [Outcome.after]
      -- No removal changes what a node reads, so the later ones may go by the first graph.
      rw [induction]
      · rw [fanins_withoutGates, mapNodes_mapNodes]
        simp only [withoutGates_withoutGates]
        rfl
      · intro gate member
        rw [fanins_withoutGates, isDefined_mapNodes]
        rcases defined gate (List.mem_cons_of_mem head member) with ⟨gateDefined, others⟩
        exact ⟨gateDefined, fun id inside => by rw [isDefined_mapNodes]; exact others id inside⟩

/-! ## Sweeping -/

theorem mem_deadGates_iff {id : Nat} : id ∈ graph.deadGates ↔
    graph.isGate id = true ∧ graph.isActive id = true ∧ ¬graph.Observed id := by
  rw [mem_deadGates, mem_order_iff, not_and]
  constructor
  · rintro ⟨isGate, active, unseen⟩
    exact ⟨isGate, active, unseen active⟩
  · rintro ⟨isGate, active, unobserved⟩
    exact ⟨isGate, active, fun _ => unobserved⟩

theorem pairwise_deadGates (graph : Graph) : graph.deadGates.Pairwise (· < ·) :=
  ((List.pairwise_lt_range.filter _).filter _).filter _

theorem events_ofSweep (graph : Graph) :
    (Journal.ofSweep graph).events = graph.deadGates.map Event.sweep := by
  have noNotes : Journal.events (if graph.deadGates.isEmpty then []
      else [.note (.swept graph.deadGates.length)]) = [] := by
    split <;> rfl
  rw [Journal.ofSweep, Journal.events_append, noNotes, List.append_nil, Journal.events,
    List.filterMap_map]
  exact congrFun List.filterMap_eq_map graph.deadGates

theorem withoutGates_eq {gates : List Nat} {id : Nat} {node : Node}
    (listed : ∀ fanout ∈ node.fanouts, graph.Reads fanout.node id) :
    withoutGates graph.fanins gates id node =
      if id ∈ gates then { node with active := false, fanouts := [] }
      else node.dropFanouts fun consumer => decide (consumer ∈ gates) := by
  rw [withoutGates]
  split
  · rfl
  · apply Node.dropFanouts_congr
    intro fanout member
    have reads : id ∈ (graph.fanins fanout.node).map Literal.node :=
      List.mem_map.mpr (listed fanout member)
    simp only [reads, and_true]

namespace Linked

variable (linked : graph.Linked)

include linked

theorem sweepInPlace_eq : graph.sweepInPlace =
    ⟨graph.mapNodes (withoutGates graph.fanins graph.deadGates), .ofSweep graph,
      .ok graph.deadGates⟩ := by
  have defined : ∀ gate ∈ graph.deadGates, graph.isDefined gate = true ∧
      ∀ id ∈ (graph.fanins gate).map Literal.node, graph.isDefined id = true := by
    intro gate dead
    have active := (mem_deadGates_iff.mp dead).2.1
    refine ⟨isDefined_of_isActive active, ?_⟩
    intro id member
    rcases linked.readable gate id active (List.mem_map.mp member) with ⟨node, found, -⟩
    exact isDefined_of_node? found
  rw [sweepInPlace, removeEach_eq defined]
  rfl

theorem frame_sweepInPlace : graph.Frame graph.sweepInPlace.graph := by
  rw [linked.sweepInPlace_eq]
  apply Frame.mapNodes
  intro id node found
  rw [withoutGates]
  split
  · rename_i dead
    exact nodeFrame_of_mem_deadGates found dead
  · exact .of_kind rfl rfl (fun active => active) fun _ => rfl

theorem sameLive_sweepInPlace : graph.sweep.SameLive graph.sweepInPlace.graph := by
  rw [linked.sweepInPlace_eq]
  refine ⟨rfl, rfl, ?_⟩
  intro id
  rw [node?_sweep, node?_mapNodes]
  cases found : graph.node? id with
  | none => rfl
  | some node =>
      refine congrArg some ?_
      cases active : node.active with
      | true => rw [withoutGates_eq fun fanout => linked.reads_of_mem_fanouts found active]
      | false =>
          rw [withoutGates]
          split
          · rfl
          · simp only [Node.liveWiring, Node.dropFanouts, active, Bool.false_eq_true, if_false]

end Linked

theorem Tidy.sweepInPlace_eq (tidy : graph.Tidy) :
    graph.sweepInPlace = ⟨graph.sweep, .ofSweep graph, .ok graph.deadGates⟩ := by
  have same : graph.mapNodes (withoutGates graph.fanins graph.deadGates) = graph.sweep := by
    refine ext_of_node? (by rw [size_mapNodes, graph.frame_sweep.size]) ?_ rfl rfl
    intro id
    rw [node?_mapNodes, node?_sweep]
    cases found : graph.node? id with
    | none => rfl
    | some node => exact congrArg some (withoutGates_eq (tidy.listed id node found))
  rw [tidy.toLinked.sweepInPlace_eq, same]

def sweepActive (dead : List Nat) (id : Nat) (node : Node) : Node :=
  if id ∈ dead then { node with active := false, fanouts := [] }
  else if node.active then node.dropFanouts fun consumer => decide (consumer ∈ dead)
  else node

namespace WellFormed

variable (wellFormed : graph.WellFormed)

include wellFormed

/-- Of the nodes that stay, the active ones lose every entry that names a dead gate. The others
are read by no dead gate. -/
theorem withoutGates_eq_sweepActive {id : Nat} {node : Node} (found : graph.node? id = some node) :
    withoutGates graph.fanins graph.deadGates id node = sweepActive graph.deadGates id node := by
  rw [sweepActive]
  cases active : node.active with
  | true =>
      rw [withoutGates_eq fun fanout => wellFormed.reads_of_mem_fanouts found active]
      rfl
  | false =>
      rw [withoutGates]
      split
      · rfl
      · apply Node.dropFanouts_eq_self
        intro fanout _
        rw [decide_eq_false_iff_not]
        rintro ⟨dead, reads⟩
        have readActive := wellFormed.isActive_driver _ _ (mem_deadGates_iff.mp dead).2.1
          (List.mem_map.mp reads)
        rw [isActive_of_node? found, active] at readActive
        cases readActive

theorem sweepInPlace_eq : graph.sweepInPlace =
    ⟨graph.mapNodes (sweepActive graph.deadGates), .ofSweep graph, .ok graph.deadGates⟩ := by
  rw [wellFormed.toLinked.sweepInPlace_eq,
    mapNodes_congr fun id node => wellFormed.withoutGates_eq_sweepActive]

theorem isActive_sweepInPlace_iff {id : Nat}
    (isGate : graph.sweepInPlace.graph.isGate id = true) :
    graph.sweepInPlace.graph.isActive id = true ↔ graph.sweepInPlace.graph.Observed id := by
  have same := wellFormed.sameLive_sweepInPlace
  constructor
  · intro active
    rw [same.isGate] at isGate
    rw [same.isActive] at active
    exact same.observed_iff.mpr (mem_order_iff.mp (mem_order_sweep isGate active)).2
  · exact (same.wellFormed wellFormed.sweep).isActive_of_observed

theorem deadGates_sweepInPlace : graph.sweepInPlace.graph.deadGates = [] := by
  rw [List.eq_nil_iff_forall_not_mem]
  intro id member
  rcases mem_deadGates_iff.mp member with ⟨isGate, active, unobserved⟩
  exact unobserved ((wellFormed.isActive_sweepInPlace_iff isGate).mp active)

/-- A sweep in place returns the active gates that no output sees, in increasing order, and
reports them in that order. It leaves of every node what `sweepActive` says and changes nothing
else. Afterwards the active gates are those that some output sees, and a second sweep finds
nothing to do. -/
theorem sweepInPlace_removes_dead : ∃ dead, graph.sweepInPlace.result = .ok dead ∧
    dead.Pairwise (· < ·) ∧
    (∀ id, id ∈ dead ↔ graph.isGate id = true ∧ graph.isActive id = true ∧ ¬graph.Observed id) ∧
    graph.sweepInPlace.journal.events = dead.map Event.sweep ∧
    graph.sweepInPlace.graph = graph.mapNodes (sweepActive dead) ∧
    (∀ id, graph.sweepInPlace.graph.isGate id = true →
      (graph.sweepInPlace.graph.isActive id = true ↔ graph.sweepInPlace.graph.Observed id)) ∧
    graph.sweepInPlace.graph.sweepInPlace = ⟨graph.sweepInPlace.graph, [], .ok []⟩ := by
  have swept := wellFormed.sweepInPlace_eq
  refine ⟨graph.deadGates, by rw [swept], graph.pairwise_deadGates, fun id => mem_deadGates_iff,
    ?_, by rw [swept], fun id => wellFormed.isActive_sweepInPlace_iff, ?_⟩
  · rw [swept]
    exact events_ofSweep graph
  · have after := wellFormed.sameLive_sweepInPlace.wellFormed wellFormed.sweep
    have idle (kept : Graph) : kept.mapNodes (sweepActive []) = kept := by
      refine (mapNodes_congr fun id node _ => ?_).trans kept.mapNodes_self
      rw [sweepActive, if_neg List.not_mem_nil]
      split
      · exact Node.dropFanouts_eq_self fun _ _ => decide_eq_false List.not_mem_nil
      · rfl
    rw [after.sweepInPlace_eq, Journal.ofSweep, wellFormed.deadGates_sweepInPlace, idle]
    rfl

end WellFormed

/-- Two gates that no output sees, the second of which reads the first one twice. -/
def deadEnds : Graph where
  slots := #[
    some { kind := .constant },
    some { kind := .input, fanouts := [.plain 3, ⟨4, true⟩] },
    some { kind := .input, fanouts := [.plain 3] },
    some { kind := .gate (.plain 1) (.plain 2), fanouts := [.plain 4, .plain 6] },
    some { kind := .gate (.plain 3) ⟨1, true⟩, fanouts := [.plain 5, ⟨5, true⟩] },
    some { kind := .gate (.plain 4) ⟨4, true⟩ },
    some { kind := .output (.plain 3) }]
  inputs := [1, 2]
  outputs := [6]

theorem consistent_deadEnds : deadEnds.Consistent := by
  have input := empty.grows_addInput.consistent consistent_empty (by decide)
  have inputs := empty.addInput.2.grows_addInput.consistent input (by decide)
  have first := grows_addGateAt (show addGateAt 3 (.plain 1) (.plain 2) _ = .ok _ from rfl)
    |>.consistent inputs (by decide)
  have second := grows_addGateAt (show addGateAt 4 (.plain 3) ⟨1, true⟩ _ = .ok _ from rfl)
    |>.consistent first (by decide)
  have third := grows_addGateAt (show addGateAt 5 (.plain 4) ⟨4, true⟩ _ = .ok _ from rfl)
    |>.consistent second (by decide)
  exact grows_addOutput (show addOutput (.plain 3) _ = .ok _ from rfl)
    |>.consistent third (by decide)

theorem sweepInPlace_removes_deadEnds : deadEnds.WellFormed ∧
    deadEnds.sweepInPlace.result = .ok [4, 5] ∧
    deadEnds.sweepInPlace.journal.events = [.sweep 4, .sweep 5] ∧
    deadEnds.sweepInPlace.graph.sweepInPlace = ⟨deadEnds.sweepInPlace.graph, [], .ok []⟩ := by
  have wellFormed := consistent_deadEnds.toWellFormed
  rcases wellFormed.sweepInPlace_removes_dead with ⟨dead, result, -, -, events, -, -, again⟩
  have found : deadEnds.deadGates = [4, 5] := by decide +kernel
  rw [wellFormed.sweepInPlace_eq, found] at result
  cases result
  exact ⟨wellFormed, by rw [wellFormed.sweepInPlace_eq, found], events, again⟩

end AndInverter.Graph
