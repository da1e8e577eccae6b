import AndInverter.Passes.Sweep
import AndInverter.Proofs.Graph.Functions
import AndInverter.Proofs.Traversal.PostOrder

namespace AndInverter

/-! Sweeping a well-formed graph. No node that stays reads a dead gate, so the graph
stays well-formed, every node that is still active keeps its function, and the outputs
see every gate that is left. -/

theorem Marks.contains_foldl_insert (ids : List Nat) (marks : Marks) (id : Nat) :
    (ids.foldl (fun marks id => marks.insert id) marks).contains id = true ↔
      id ∈ ids ∨ marks.contains id = true := by
  induction ids generalizing marks with
  | nil => simp
  | cons head tail induction =>
      rw [List.foldl_cons, induction]
      simp only [contains_insert, Bool.or_eq_true, decide_eq_true_eq, List.mem_cons]
      tauto

namespace Graph

variable {graph : Graph}

theorem mem_deadGates {id : Nat} : id ∈ graph.deadGates ↔
    graph.isGate id = true ∧ graph.isActive id = true ∧ id ∉ graph.order := by
  have seen : ((graph.order.foldl (fun marks id => marks.insert id)
      (Marks.none graph.size)).contains id = false) ↔ id ∉ graph.order := by
    rw [Bool.eq_false_iff, ne_eq, Marks.contains_foldl_insert, Marks.contains_none]
    simp
  simp only [deadGates, List.mem_filter, mem_activeGates, Bool.not_eq_true', seen, and_assoc]

theorem node?_sweep (graph : Graph) (id : Nat) :
    graph.sweep.node? id = (graph.node? id).map fun node =>
      if id ∈ graph.deadGates then { node with active := false, fanouts := [] }
      else node.dropFanouts fun consumer => decide (consumer ∈ graph.deadGates) := by
  have dead : (graph.deadGates.foldl (fun marks id => marks.insert id)
      (Marks.none graph.size)).contains = fun id => decide (id ∈ graph.deadGates) := by
    funext other
    rw [Bool.eq_iff_iff, Marks.contains_foldl_insert, Marks.contains_none]
    simp
  rw [sweep, removeGates, node?_mapNodes, dead]
  congr 1
  funext node
  by_cases member : id ∈ graph.deadGates <;> simp [sweepNode, member]

theorem isActive_sweep {id : Nat} : graph.sweep.isActive id = true ↔
    graph.isActive id = true ∧ id ∉ graph.deadGates := by
  simp only [isActive, node?_sweep]
  cases graph.node? id with
  | none => simp
  | some node => by_cases dead : id ∈ graph.deadGates <;> simp [dead, Node.dropFanouts]

theorem fanins_sweep (graph : Graph) (id : Nat) : graph.sweep.fanins id = graph.fanins id := by
  simp only [Graph.fanins, node?_sweep]
  cases graph.node? id with
  | none => rfl
  | some node =>
      by_cases dead : id ∈ graph.deadGates <;> simp [dead, Node.dropFanouts, Node.fanins]

theorem reads_sweep_iff {consumer driver : Nat} :
    graph.sweep.Reads consumer driver ↔ graph.Reads consumer driver := by
  rw [Reads, Reads, fanins_sweep]

theorem nodeFrame_of_mem_deadGates {id : Nat} {node : Node} (found : graph.node? id = some node)
    (dead : id ∈ graph.deadGates) :
    NodeFrame node { node with active := false, fanouts := [] } := by
  refine .of_kind rfl rfl (fun active => nomatch active) ?_
  intro noGate
  have isGate := (mem_deadGates.mp dead).1
  rw [isGate_of_node? found, noGate] at isGate
  cases isGate

theorem frame_sweep (graph : Graph) : graph.Frame graph.sweep where
  size := size_mapNodes _ graph
  inputs := rfl
  outputs := rfl
  missing id missing := by rw [node?_sweep, missing, Option.map_none]
  node id node found := by
    rw [node?_sweep, found, Option.map_some]
    refine ⟨_, rfl, ?_⟩
    by_cases dead : id ∈ graph.deadGates
    · rw [if_pos dead]
      exact nodeFrame_of_mem_deadGates found dead
    · rw [if_neg dead]
      exact .of_kind rfl rfl (fun active => active) fun _ => rfl

private theorem edgeCount_sweep (graph : Graph) (driver : Nat) (fanout : Literal) :
    graph.sweep.edgeCount driver fanout =
      if fanout.node ∈ graph.deadGates then 0 else graph.edgeCount driver fanout := by
  rw [edgeCount, edgeCount, fanins_sweep]
  by_cases dead : fanout.node ∈ graph.deadGates
  · have inactive : ¬graph.sweep.isActive fanout.node = true :=
      fun active => (Graph.isActive_sweep.mp active).2 dead
    rw [if_neg inactive, if_pos dead]
  · simp only [Graph.isActive_sweep, dead, not_false_eq_true, and_true, if_false]

theorem Linked.sweep (linked : graph.Linked) : graph.sweep.Linked := by
  apply graph.frame_sweep.linked linked
  · intro consumer driver active reads
    exact graph.frame_sweep.readable
      (linked.readable consumer driver (isActive_sweep.mp active).1 (reads_sweep_iff.mp reads))
  · intro id changed later active fanout
    have alive := (isActive_sweep.mp ((isActive_of_node? later).trans active)).2
    rw [node?_sweep] at later
    rcases Option.map_eq_some_iff.mp later with ⟨node, found, equal⟩
    rw [if_neg alive] at equal
    subst equal
    rw [edgeCount_sweep, ← linked.count_fanouts found active]
    by_cases dead : fanout.node ∈ graph.deadGates
    · rw [if_pos dead, List.count_eq_zero]
      intro member
      simpa [dead] using List.of_mem_filter member
    · rw [if_neg dead]
      exact List.count_filter (by simpa using dead)
  · rcases linked.acyclic with ⟨rank, decreases⟩
    refine ⟨rank, ?_⟩
    intro consumer driver active reads
    exact decreases consumer driver (isActive_sweep.mp active).1 (reads_sweep_iff.mp reads)

namespace WellFormed

variable (wellFormed : graph.WellFormed)

include wellFormed

theorem not_mem_deadGates_of_reads {consumer driver : Nat}
    (active : graph.isActive consumer = true) (alive : consumer ∉ graph.deadGates)
    (reads : graph.Reads consumer driver) : driver ∉ graph.deadGates := by
  intro dead
  rcases mem_deadGates.mp dead with ⟨-, driverActive, unseen⟩
  have seen : consumer ∈ graph.order := by
    by_cases isGate : graph.isGate consumer = true
    · by_contra missing
      exact alive (mem_deadGates.mpr ⟨isGate, active, missing⟩)
    · rcases reads with ⟨edge, member, -⟩
      rcases node?_of_mem_fanins member with ⟨node, found, faninMember⟩
      rw [isGate_of_node? found] at isGate
      apply mem_order_of_mem_outputs _ active
      apply (wellFormed.mem_outputs consumer).mpr
      refine ⟨node, found, ?_⟩
      cases kind : node.kind with
      | output other => rfl
      | constant
      | input =>
          rw [kind] at faninMember
          cases faninMember
      | gate left right =>
          rw [kind] at isGate
          exact absurd rfl isGate
  exact unseen (mem_order_of_reads seen reads driverActive)

theorem isActive_sweep_of_reads {consumer driver : Nat}
    (active : graph.sweep.isActive consumer = true) (reads : graph.Reads consumer driver) :
    graph.sweep.isActive driver = true := by
  rcases Graph.isActive_sweep.mp active with ⟨before, alive⟩
  exact Graph.isActive_sweep.mpr
    ⟨wellFormed.isActive_driver _ _ before reads,
      wellFormed.not_mem_deadGates_of_reads before alive reads⟩

theorem sweep : graph.sweep.WellFormed where
  toLinked := wellFormed.toLinked.sweep
  isActive_driver _ _ active reads :=
    wellFormed.isActive_sweep_of_reads active (reads_sweep_iff.mp reads)

theorem preserves_sweep : graph.Preserves graph.sweep := by
  apply wellFormed.preserves_of_rewired graph.frame_sweep wellFormed.sweep
  intro id node found active
  have alive := (Graph.isActive_sweep.mp active).2
  refine ⟨fun edge => edge, _, by rw [node?_sweep, found, Option.map_some, if_neg alive], ?_, ?_⟩
  · exact (Kind.mapFanins_id _).symm
  · exact fun _ _ _ _ carries => carries

end WellFormed

/-- What an output sees is alive, so a sweep leaves the path to it. -/
theorem sees_sweep_of_mem_outputs {output id : Nat} (member : output ∈ graph.outputs)
    (sees : graph.Sees output id) : graph.sweep.Sees output id := by
  induction sees with
  | refl => exact .refl
  | tail above edge induction =>
      have alive := mem_order_iff.mpr ⟨edge.1, output, member, above⟩
      have active := isActive_sweep.mpr
        ⟨edge.1, fun dead => (mem_deadGates.mp dead).2.2 alive⟩
      exact induction.tail ⟨active, reads_sweep_iff.mpr edge.2⟩

theorem mem_order_sweep {id : Nat} (isGate : graph.sweep.isGate id = true)
    (active : graph.sweep.isActive id = true) : id ∈ graph.sweep.order := by
  rcases isActive_sweep.mp active with ⟨before, alive⟩
  rw [graph.frame_sweep.isGate] at isGate
  have seen : id ∈ graph.order := by
    by_contra missing
    exact alive (mem_deadGates.mpr ⟨isGate, before, missing⟩)
  rcases mem_order_iff.mp seen with ⟨-, output, member, sees⟩
  exact mem_order_iff.mpr ⟨active, output, member, sees_sweep_of_mem_outputs member sees⟩

theorem WellFormed.mem_order_sweep_of_observed (wellFormed : graph.WellFormed) {id : Nat}
    (observed : graph.Observed id) : id ∈ graph.sweep.order := by
  rcases observed with ⟨output, member, sees⟩
  have seesAfter := sees_sweep_of_mem_outputs member sees
  have memberAfter : output ∈ graph.sweep.outputs := graph.frame_sweep.outputs ▸ member
  exact mem_order_iff.mpr
    ⟨wellFormed.sweep.isActive_of_observed ⟨output, memberAfter, seesAfter⟩, output, memberAfter,
      seesAfter⟩

theorem WellFormed.isActive_sweep_iff (wellFormed : graph.WellFormed) {id : Nat}
    (isGate : graph.isGate id = true) : graph.sweep.isActive id = true ↔ graph.Observed id := by
  constructor
  · intro active
    rcases isActive_sweep.mp active with ⟨before, alive⟩
    by_contra unseen
    exact alive (mem_deadGates.mpr ⟨isGate, before, fun seen => unseen (mem_order_iff.mp seen).2⟩)
  · intro observed
    exact (mem_order_iff.mp (wellFormed.mem_order_sweep_of_observed observed)).1

theorem WellFormed.isActive_iff_observed_sweep (wellFormed : graph.WellFormed) {id : Nat}
    (isGate : graph.sweep.isGate id = true) :
    graph.sweep.isActive id = true ↔ graph.sweep.Observed id := by
  constructor
  · exact fun active => (mem_order_iff.mp (mem_order_sweep isGate active)).2
  · exact fun observed => wellFormed.sweep.isActive_of_observed observed

end Graph

end AndInverter
