import AndInverter.Graph.Integrity
import AndInverter.Proofs.Traversal.TopologicalSort

namespace AndInverter

/-! The integrity check. A well-formed graph passes it. A graph that passes it is not
well-formed for that, but nothing below its outputs is amiss. -/

theorem Result.forM_eq_ok_iff {α : Type} {values : List α} {check : α → Result PUnit} :
    values.forM check = .ok ⟨⟩ ↔ ∀ value ∈ values, check value = .ok ⟨⟩ := by
  induction values with
  | nil =>
      constructor
      · exact fun _ value member => nomatch member
      · exact fun _ => rfl
  | cons head tail induction =>
      change (check head >>= fun _ => tail.forM check) = .ok ⟨⟩ ↔ _
      rw [Result.bind_eq_ok_iff, List.forall_mem_cons, ← induction]
      constructor
      · rintro ⟨⟨⟩, first, others⟩
        exact ⟨first, others⟩
      · rintro ⟨first, others⟩
        exact ⟨⟨⟩, first, others⟩

namespace Graph

theorem checkIntegrity_eq_ok_iff {graph : Graph} : graph.checkIntegrity = .ok () ↔
    (∃ node, graph.node? 0 = some node ∧ node.kind = .constant ∧ node.active = true) ∧
      (∀ id ∈ graph.ids, graph.checkNode id = .ok ()) ∧ graph.checkDeclarations = .ok () ∧
        ∃ order, graph.topologicalSort = .ok order := by
  simp only [checkIntegrity, Result.bind_eq_ok_iff, Result.guard_bind_eq_ok_iff,
    Bool.not_eq_true', Bool.not_eq_false, Option.any_eq_true_iff_get, Bool.and_eq_true,
    Kind.isConstant_iff]
  constructor
  · rintro ⟨⟨inside, kind, active⟩, ⟨⟩, nodes, ⟨⟩, declarations, order, sorted, -⟩
    exact ⟨⟨_, (Option.some_get inside).symm, kind, active⟩, Result.forM_eq_ok_iff.mp nodes,
      declarations, order, sorted⟩
  · rintro ⟨⟨node, found, kind, active⟩, nodes, declarations, order, sorted⟩
    simp only [found]
    exact ⟨⟨rfl, kind, active⟩, ⟨⟩, Result.forM_eq_ok_iff.mpr nodes, ⟨⟩, declarations, order,
      sorted, rfl⟩

end Graph

namespace Graph.WellFormed

variable {graph : Graph} (wellFormed : graph.WellFormed)

include wellFormed

theorem checkFaninEdge_eq_ok {id : Nat} {node : Node} (found : graph.node? id = some node)
    (active : node.active = true) {fanin : Literal} (member : fanin ∈ node.fanins) :
    graph.checkFaninEdge id fanin = .ok () := by
  have idActive : graph.isActive id = true := (isActive_of_node? found).trans active
  have inside : fanin ∈ graph.fanins id := by rwa [fanins_of_node? found]
  rcases wellFormed.fanins id fanin.node idActive (reads_of_mem inside) with
    ⟨driver, driverFound, driverActive, -⟩
  have listed : (⟨id, fanin.inverted⟩ : Literal) ∈ driver.fanouts :=
    (wellFormed.mem_fanouts_iff driverFound driverActive).mpr ⟨idActive, inside⟩
  rw [checkFaninEdge, driverFound]
  simp [driverActive, listed]

theorem checkFanoutEdge_eq_ok {id : Nat} {node : Node} (found : graph.node? id = some node)
    (active : node.active = true) {fanout : Literal} (member : fanout ∈ node.fanouts) :
    graph.checkFanoutEdge id fanout = .ok () := by
  rcases (wellFormed.mem_fanouts_iff found active).mp member with ⟨consumerActive, read⟩
  rcases isActive_eq_true_iff.mp consumerActive with ⟨consumer, consumerFound, isActive⟩
  rw [fanins_of_node? consumerFound] at read
  rw [checkFanoutEdge, consumerFound]
  simp [isActive, Node.fanins, read]

theorem checkNode_eq_ok {id : Nat} (member : id ∈ graph.ids) : graph.checkNode id = .ok () := by
  rcases Option.isSome_iff_exists.mp (mem_ids.mp member) with ⟨node, found⟩
  have noConstant : ¬(id ≠ 0 && node.kind.isConstant) = true := by
    intro misplaced
    rw [Bool.and_eq_true, decide_eq_true_eq, Kind.isConstant_iff] at misplaced
    exact misplaced.1 (wellFormed.only_constant id node found misplaced.2)
  simp only [checkNode, Result.bind_eq_ok_iff, Result.guard_bind_eq_ok_iff, node_eq_ok_iff]
  refine ⟨node, found, noConstant, ?_⟩
  split
  · rename_i active
    rw [Result.bind_eq_ok_iff]
    exact ⟨⟨⟩, Result.forM_eq_ok_iff.mpr fun fanin => wellFormed.checkFaninEdge_eq_ok found active,
      Result.forM_eq_ok_iff.mpr fun fanout => wellFormed.checkFanoutEdge_eq_ok found active⟩
  · rfl

theorem checkDeclarations_eq_ok : graph.checkDeclarations = .ok () := by
  rw [checkDeclarations, Result.bind_eq_ok_iff]
  refine ⟨⟨⟩, Result.forM_eq_ok_iff.mpr ?_, Result.forM_eq_ok_iff.mpr ?_⟩
  · intro id member
    rcases (wellFormed.mem_inputs id).mp member with ⟨node, found, kind⟩
    simp only [Result.bind_eq_ok_iff, Result.guard_eq_ok_iff, node_eq_ok_iff]
    exact ⟨node, found, by simp [kind, Kind.isInput], rfl⟩
  · intro id member
    rcases (wellFormed.mem_outputs id).mp member with ⟨node, found, isOutput⟩
    simp only [Result.bind_eq_ok_iff, Result.guard_eq_ok_iff, node_eq_ok_iff]
    exact ⟨node, found, by simp [isOutput], rfl⟩

theorem exists_topologicalSort : ∃ order, graph.topologicalSort = .ok order := by
  have needed : ∀ id, graph.Needed id → graph.isActive id = true := by
    rintro id ⟨output, member, path⟩
    induction path with
    | refl => exact wellFormed.outputs_active output member
    | tail _ reads induction => exact wellFormed.isActive_driver _ _ induction reads
  have defined : ∀ output ∈ graph.outputs, graph.isDefined output = true :=
    fun output member => isDefined_of_isActive (wellFormed.outputs_active output member)
  cases sorted : graph.topologicalSort with
  | ok order => exact ⟨order, rfl⟩
  | error failure =>
      exfalso
      cases unsortable_of_topologicalSort defined sorted with
      | readsInactive needs reads inactive =>
          cases inactive.symm.trans (wellFormed.isActive_driver _ _ (needed _ needs) reads)
      | cycle needs around =>
          exact wellFormed.acyclic.not_transGen _ (needs.transGen_follows needed around)

theorem checkIntegrity_eq_ok : graph.checkIntegrity = .ok () := by
  rcases wellFormed.constant with ⟨node, found, kind, active⟩
  rw [checkIntegrity_eq_ok_iff]
  exact ⟨⟨node, found, kind, active⟩, fun id => wellFormed.checkNode_eq_ok,
    wellFormed.checkDeclarations_eq_ok, wellFormed.exists_topologicalSort⟩

end Graph.WellFormed

namespace Graph

variable {graph : Graph}

/-! ## Graphs that pass -/

theorem isActive_of_checkFaninEdge {id : Nat} {fanin : Literal}
    (checked : graph.checkFaninEdge id fanin = .ok ()) : graph.isActive fanin.node = true := by
  rw [checkFaninEdge] at checked
  split at checked
  · cases checked
  · rename_i driver found
    cases active : driver.active with
    | true => exact (isActive_of_node? found).trans active
    | false => simp [active] at checked

theorem isActive_of_checkNode {id driver : Nat} (checked : graph.checkNode id = .ok ())
    (active : graph.isActive id = true) (reads : graph.Reads id driver) :
    graph.isActive driver = true := by
  rcases isActive_eq_true_iff.mp active with ⟨node, found, nodeActive⟩
  rcases reads with ⟨edge, member, rfl⟩
  rw [fanins_of_node? found] at member
  simp only [checkNode, Result.bind_eq_ok_iff, Result.guard_bind_eq_ok_iff, node_eq_ok_iff]
    at checked
  rcases checked with ⟨other, otherFound, -, rest⟩
  rw [found] at otherFound
  cases otherFound
  rw [if_pos nodeActive, Result.bind_eq_ok_iff] at rest
  rcases rest with ⟨⟨⟩, fanins, -⟩
  exact isActive_of_checkFaninEdge (Result.forM_eq_ok_iff.mp fanins edge member)

/-- Of a linked graph the check only finds out whether active nodes read active ones. -/
theorem Linked.wellFormed_of_checkIntegrity (linked : graph.Linked)
    (checked : graph.checkIntegrity = .ok ()) : graph.WellFormed := by
  rcases checkIntegrity_eq_ok_iff.mp checked with ⟨-, nodes, -, -⟩
  refine ⟨linked, ?_⟩
  intro consumer driver active reads
  have inside := mem_ids.mpr (isDefined_of_isActive active)
  exact isActive_of_checkNode (nodes consumer inside) active reads

theorem Linked.checkIntegrity_eq_ok_iff (linked : graph.Linked) :
    graph.checkIntegrity = .ok () ↔ graph.WellFormed :=
  ⟨linked.wellFormed_of_checkIntegrity, fun wellFormed => wellFormed.checkIntegrity_eq_ok⟩

theorem acyclicBelow_of_topologicalSort {order : List Nat}
    (sorted : graph.topologicalSort = .ok order) : graph.AcyclicBelow graph.outputs := by
  have sorts := sorts_of_topologicalSort sorted
  intro root member id sees path
  have inside : id ∈ order := (sorts.mem_iff id).mpr
    ⟨root, member, Relation.ReflTransGen.mono (fun _ _ edge => edge.2) _ _ sees⟩
  exact sorts.acyclic id inside (Relation.TransGen.mono (fun _ _ edge => edge.2) _ _ path)

end Graph

end AndInverter
