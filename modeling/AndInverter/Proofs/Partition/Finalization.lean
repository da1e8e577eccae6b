import AndInverter.Proofs.Graph.Edit
import AndInverter.Proofs.Partition.Memberships
import AndInverter.Proofs.Partition.Regular

namespace AndInverter

/-! The end of a session, where the classes are sorted and recorded in a graph. No node is in two
classes, so a node has one entry to record at most, and the order of the entries does not
matter. What was on record before goes; nothing else of a node changes. -/

namespace Partition

variable {partition : Partition} {graph : Graph}

/-! ## Entries -/

theorem map_fst_memberships (partition : Partition) :
    partition.memberships.map Prod.fst = partition.nodes := by
  simp only [memberships, nodes, List.map_flatMap, List.map_map, Function.comp_def]
  generalize 0 = start
  induction partition.classes generalizing start with
  | nil => rfl
  | cons members others induction =>
      rw [List.zipIdx_cons, List.flatMap_cons, List.flatMap_cons, induction]

theorem lookup_eq_some_iff {entries : List (Nat × Membership)}
    (nodup : (entries.map Prod.fst).Nodup) {id : Nat} {membership : Membership} :
    entries.lookup id = some membership ↔ (id, membership) ∈ entries := by
  induction entries with
  | nil => simp
  | cons entry others induction =>
      rcases entry with ⟨key, value⟩
      rcases List.nodup_cons.mp nodup with ⟨fresh, rest⟩
      rw [List.lookup_cons, List.mem_cons, Prod.mk.injEq]
      by_cases same : id = key
      · subst same
        have absent : (id, membership) ∉ others :=
          fun member => fresh (List.mem_map.mpr ⟨_, member, rfl⟩)
        simp [absent, eq_comm]
      · have skipped : (id == key) = false := beq_eq_false_iff_ne.mpr same
        simp [same, skipped, induction rest]

theorem record_eq {entries : List (Nat × Membership)}
    (nodup : (entries.map Prod.fst).Nodup)
    (defined : ∀ entry ∈ entries, graph.isDefined entry.1 = true) :
    record entries graph = (graph.mapNodes fun id node =>
      { node with membership := (entries.lookup id).or node.membership }, .ok ()) := by
  induction entries generalizing graph with
  | nil => exact Prod.ext (Graph.mapNodes_self graph).symm rfl
  | cons entry others induction =>
      rcases entry with ⟨key, value⟩
      rcases List.nodup_cons.mp nodup with ⟨fresh, rest⟩
      rcases List.forall_mem_cons.mp defined with ⟨here, later⟩
      rcases Option.isSome_iff_exists.mp here with ⟨node, found⟩
      have unlisted : others.lookup key = none := by
        rw [Option.eq_none_iff_forall_ne_some]
        intro other listed
        exact fresh (List.mem_map.mpr ⟨_, (lookup_eq_some_iff rest).mp listed, rfl⟩)
      rw [record, Graph.update, Graph.node_eq_ok_iff.mpr found]
      change record others _ = _
      rw [induction rest (by simpa using later), Graph.modify_eq_mapNodes,
        Graph.mapNodes_mapNodes]
      congr 1
      apply Graph.mapNodes_congr
      intro id node _
      rw [List.lookup_cons]
      by_cases same : id = key
      · simp [same, unlisted]
      · have skipped : (id == key) = false := beq_eq_false_iff_ne.mpr same
        simp [same, skipped]

section Recording

variable (nodup : partition.nodes.Nodup)
  (defined : ∀ id ∈ partition.nodes, graph.isDefined id = true)

include nodup

theorem mem_memberships_of_lookup {id : Nat} {membership : Membership} :
    partition.memberships.lookup id = some membership ↔ ∃ members,
      partition.classes[membership.position]? = some members ∧
        ⟨id, membership.inverted⟩ ∈ members := by
  rw [lookup_eq_some_iff (by rwa [map_fst_memberships]), mem_memberships_iff]

include defined

theorem recordIn_eq : partition.recordIn graph = (graph.mapNodes fun id node =>
    { node with membership := partition.memberships.lookup id }, .ok ()) := by
  rw [← map_fst_memberships] at nodup defined
  have listed : ∀ entry ∈ partition.memberships, (forget graph).isDefined entry.1 = true := by
    intro entry member
    rw [forget, Graph.isDefined_mapNodes]
    exact defined entry.1 (List.mem_map_of_mem member)
  rw [recordIn, record_eq nodup listed, forget, Graph.mapNodes_mapNodes]
  simp only [Option.or_none]

theorem membership?_recordIn (id : Nat) :
    (partition.recordIn graph).1.membership? id = partition.memberships.lookup id := by
  rw [recordIn_eq nodup defined, Graph.membership?, Graph.node?_mapNodes]
  cases found : graph.node? id with
  | some node => rfl
  | none =>
      symm
      rw [Option.map_none, Option.bind_none, Option.eq_none_iff_forall_ne_some]
      intro membership entered
      rcases (mem_memberships_of_lookup nodup).mp entered with ⟨members, listed, held⟩
      have member : id ∈ partition.nodes :=
        mem_nodes.mpr ⟨members, List.mem_of_getElem? listed, List.mem_map.mpr ⟨_, held, rfl⟩⟩
      simpa [Graph.isDefined, found] using defined id member

end Recording

/-! ## Records -/

/-- The classes are on record in a graph that was `before`, and nothing else of it is changed:
a node knows the position of its class and its inverter there, and the class of a node that is
looked up is the one that holds it. -/
structure Recorded (partition : Partition) (before graph : Graph) : Prop where
  member : ∀ id membership, graph.membership? id = some membership ↔
    ∃ members, partition.classes[membership.position]? = some members ∧
      ⟨id, membership.inverted⟩ ∈ members
  stranger : ∀ id, graph.membership? id = none ↔
    ∀ members ∈ partition.classes, id ∉ members.map Literal.node
  lookup : ∀ id members, partition.classOf? id graph = some members ↔
    members ∈ partition.classes ∧ id ∈ members.map Literal.node
  rest : graph = before.mapNodes fun id node => { node with membership := graph.membership? id }

section Records

variable (member : ∀ id membership, graph.membership? id = some membership ↔
  ∃ members, partition.classes[membership.position]? = some members ∧
    ⟨id, membership.inverted⟩ ∈ members)

include member

theorem exists_membership?_of_mem {members : List Literal} (listed : members ∈ partition.classes)
    {id : Nat} (inside : id ∈ members.map Literal.node) : ∃ membership,
      graph.membership? id = some membership ∧
        partition.classes[membership.position]? = some members := by
  rcases List.mem_iff_getElem?.mp listed with ⟨position, found⟩
  rcases List.mem_map.mp inside with ⟨literal, held, rfl⟩
  exact ⟨⟨position, literal.inverted⟩, (member _ _).mpr ⟨members, found, held⟩, found⟩

theorem membership?_eq_none_iff (id : Nat) : graph.membership? id = none ↔
    ∀ members ∈ partition.classes, id ∉ members.map Literal.node := by
  constructor
  · intro blank members listed inside
    rcases exists_membership?_of_mem member listed inside with ⟨membership, recorded, -⟩
    rw [blank] at recorded
    cases recorded
  · intro absent
    rw [Option.eq_none_iff_forall_ne_some]
    intro membership recorded
    rcases (member id membership).mp recorded with ⟨members, listed, held⟩
    exact absent members (List.mem_of_getElem? listed) (List.mem_map_of_mem held)

theorem classOf?_eq_some_iff_mem (id : Nat) (members : List Literal) :
    partition.classOf? id graph = some members ↔
      members ∈ partition.classes ∧ id ∈ members.map Literal.node := by
  rw [classOf?_eq_some_iff]
  constructor
  · rintro ⟨membership, recorded, listed⟩
    rcases (member id membership).mp recorded with ⟨others, otherListed, held⟩
    rw [listed] at otherListed
    cases otherListed
    exact ⟨List.mem_of_getElem? listed, List.mem_map_of_mem held⟩
  · rintro ⟨listed, inside⟩
    exact exists_membership?_of_mem member listed inside

end Records

theorem recorded_recordIn (nodup : partition.nodes.Nodup)
    (defined : ∀ id ∈ partition.nodes, graph.isDefined id = true) :
    partition.Recorded graph (partition.recordIn graph).1 := by
  have member : ∀ id membership, (partition.recordIn graph).1.membership? id = some membership ↔
      ∃ members, partition.classes[membership.position]? = some members ∧
        ⟨id, membership.inverted⟩ ∈ members := by
    intro id membership
    rw [membership?_recordIn nodup defined, mem_memberships_of_lookup nodup]
  refine ⟨member, membership?_eq_none_iff member, classOf?_eq_some_iff_mem member, ?_⟩
  simp only [membership?_recordIn nodup defined]
  rw [recordIn_eq nodup defined]

/-! ## Finalization -/

/-- Whatever a new partition has gone through, it can be recorded in every graph that has its
nodes. The classes stay as they are and come into the order of their pivots; then the graph has
them on record, in place of what was on record before, and nothing else of it is changed. -/
theorem finalize_synchronizes (steps : List Step) (graph : Graph)
    (defined : ∀ members ∈ (applyAll steps).classes, ∀ member ∈ members,
      graph.isDefined member.node = true) :
    ∃ sorted recorded, (applyAll steps).finalize graph = (sorted, recorded, .ok ()) ∧
      sorted.classes.Perm (applyAll steps).classes ∧ sorted.PivotsAscend ∧
        sorted.Recorded graph recorded := by
  have regular := regular_steps steps
  have nodup := regular.sorted.nodup
  have present : ∀ id ∈ (applyAll steps).sorted.nodes, graph.isDefined id = true := by
    intro id inside
    rcases mem_nodes.mp ((perm_nodes_sorted _).mem_iff.mp inside) with ⟨members, listed, held⟩
    rcases List.mem_map.mp held with ⟨member, memberInside, rfl⟩
    exact defined members listed member memberInside
  have success : ((applyAll steps).sorted.recordIn graph).2 = .ok () := by
    rw [recordIn_eq nodup present]
  exact ⟨(applyAll steps).sorted, ((applyAll steps).sorted.recordIn graph).1,
    congrArg (_, ·) (Prod.ext rfl success), List.mergeSort_perm _ _, regular.pivotsAscend_sorted,
    recorded_recordIn nodup present⟩

/-- All nodes of the graph have a stale membership on record, an input too. Afterwards a gate is
on record where it belongs, and the input in no class. -/
theorem finalize_synchronizes_twins :
    let stale := Graph.twins.mapNodes fun _ node => { node with membership := some ⟨0, true⟩ }
    let steps : List Step := [.reset Graph.twins rfl, .refine #[0#32, 0#32, 0#32, 6#32, ~~~6#32]]
    let sorted : Partition := ⟨[[.low, .plain 5], [.plain 3, ⟨4, true⟩]]⟩
    (∀ members ∈ (applyAll steps).classes, ∀ member ∈ members,
      stale.isDefined member.node = true) ∧
    ∃ recorded, (applyAll steps).finalize stale = (sorted, recorded, .ok ()) ∧
      recorded.membership? 4 = some ⟨1, true⟩ ∧ recorded.membership? 1 = none ∧
        sorted.classOf? 4 recorded = some [.plain 3, ⟨4, true⟩] := by
  intro stale steps sorted
  have refined : applyAll steps = sorted := refine_twins
  have defined : ∀ members ∈ (applyAll steps).classes, ∀ member ∈ members,
      stale.isDefined member.node = true := by
    rw [refined]
    decide
  have ordered : (applyAll steps).sorted = sorted := by
    rw [refined, Partition.sorted, List.mergeSort_of_pairwise (by decide)]
  rcases finalize_synchronizes steps stale defined with
    ⟨classes, recorded, finalized, -, -, records⟩
  have same : classes = sorted := (congrArg Prod.fst finalized).symm.trans ordered
  subst same
  refine ⟨defined, recorded, finalized, ?_, ?_, ?_⟩
  · exact (records.member 4 ⟨1, true⟩).mpr ⟨_, rfl, by decide⟩
  · exact (records.stranger 1).mpr (by decide)
  · exact (records.lookup 4 _).mpr (by decide)

end Partition

end AndInverter
