import AndInverter.Proofs.Aiger.Circuit
import AndInverter.Proofs.Traversal.DepthFirst
import AndInverter.Aiger.Placement
import Mathlib.Data.List.Duplicate

namespace AndInverter

/-! Placing gates in a graph that holds only what gates may read. All listed gates are placed,
and nothing else, exactly when their ids are free and all different, whatever they read is
there or listed, and no gate depends on itself. Otherwise the failure names what is wrong. -/

/-- Nothing but the constant and inputs; any slots may be empty. -/
structure Graph.Bare (graph : Graph) : Prop where
  constant : graph.isDefined 0 = true
  sources : ∀ id node, graph.node? id = some node → node.kind = .constant ∨ node.kind = .input

namespace Aiger

variable {graph after : Graph} {definitions : List Definition} {order : List Nat}

def Depends (definitions : List Definition) (consumer driver : Nat) : Prop :=
  ∃ gate ∈ definitions, gate.id = consumer ∧ (gate.left.node = driver ∨ gate.right.node = driver)

/-- What the listed gates must satisfy to be placed. -/
structure Placeable (graph : Graph) (definitions : List Definition) : Prop where
  nodup : (definitions.map Definition.id).Nodup
  free : ∀ gate ∈ definitions, graph.isDefined gate.id = false
  known : ∀ gate ∈ definitions, ∀ fanin ∈ [gate.left, gate.right],
    graph.isDefined fanin.node = true ∨ fanin.node ∈ definitions.map Definition.id
  acyclic : ∀ id, ¬Relation.TransGen (Depends definitions) id id

/-- The failures that the listed gates give cause for. -/
inductive Misplaced (graph : Graph) (definitions : List Definition) : Error → Prop
  | taken {id : Nat} (listed : id ∈ definitions.map Definition.id)
      (taken : graph.isDefined id = true ∨ List.Duplicate id (definitions.map Definition.id)) :
      Misplaced graph definitions (.duplicateId id)
  | unknown {gate : Definition} {fanin : Literal} (member : gate ∈ definitions)
      (reads : fanin ∈ [gate.left, gate.right]) (undefined : graph.isDefined fanin.node = false)
      (unlisted : fanin.node ∉ definitions.map Definition.id) :
      Misplaced graph definitions (.missingNode fanin.node)
  | cycle {id : Nat} (around : Relation.TransGen (Depends definitions) id id) :
      Misplaced graph definitions (.defect (.gateOnCycle id))

/-! ## The listed gates -/

theorem mem_of_definition? {id : Nat} {definition : Definition}
    (found : definition? definitions id = some definition) :
    definition ∈ definitions ∧ definition.id = id :=
  ⟨List.mem_of_find?_eq_some found, by simpa using List.find?_some found⟩

theorem isSome_definition?_iff {id : Nat} :
    (definition? definitions id).isSome = true ↔ id ∈ definitions.map Definition.id := by
  simp [definition?, List.find?_isSome]

theorem definition?_eq_some_iff (nodup : (definitions.map Definition.id).Nodup)
    {gate : Definition} {id : Nat} :
    definition? definitions id = some gate ↔ gate ∈ definitions ∧ gate.id = id := by
  refine ⟨mem_of_definition?, ?_⟩
  rintro ⟨member, rfl⟩
  rcases Option.isSome_iff_exists.mp
    (isSome_definition?_iff.mpr (List.mem_map_of_mem member)) with ⟨other, found⟩
  rcases mem_of_definition? found with ⟨otherMember, same⟩
  rw [found, List.inj_on_of_nodup_map nodup otherMember member same]

@[simp] theorem map_fst_gateNodes (gates : List Definition) :
    (gateNodes gates).map Prod.fst = gates.map Definition.id := by
  simp [gateNodes, Function.comp_def]

/-! ## Ids that are taken -/

theorem taken?_eq_none_iff {earlier : Marks} : taken? graph definitions earlier = none ↔
    (definitions.map Definition.id).Nodup ∧ ∀ definition ∈ definitions,
      earlier.contains definition.id = false ∧ graph.isDefined definition.id = false := by
  induction definitions generalizing earlier with
  | nil => simp [taken?]
  | cons head tail induction =>
      rw [taken?, List.map_cons, List.nodup_cons, List.forall_mem_cons, ← Bool.or_eq_false_iff]
      split
      · rename_i taken
        simp [taken]
      · rename_i untaken
        rw [Bool.not_eq_true] at untaken
        rw [induction]
        simp only [untaken, true_and, Marks.contains_insert, Bool.or_eq_false_iff,
          decide_eq_false_iff_not, List.mem_map, not_exists, not_and]
        constructor
        · rintro ⟨nodup, others⟩
          exact ⟨⟨fun other member same => (others other member).1.1 same, nodup⟩,
            fun other member => ⟨(others other member).1.2, (others other member).2⟩⟩
        · rintro ⟨⟨unlisted, nodup⟩, others⟩
          exact ⟨nodup, fun other member =>
            ⟨⟨unlisted other member, (others other member).1⟩, (others other member).2⟩⟩

theorem of_taken?_eq_some {earlier : Marks} {id : Nat}
    (found : taken? graph definitions earlier = some id) :
    id ∈ definitions.map Definition.id ∧ (earlier.contains id = true ∨
      graph.isDefined id = true ∨ List.Duplicate id (definitions.map Definition.id)) := by
  induction definitions generalizing earlier with
  | nil => cases found
  | cons head tail induction =>
      rw [taken?] at found
      rw [List.map_cons]
      split at found
      · rename_i taken
        cases found
        rw [Bool.or_eq_true] at taken
        exact ⟨List.mem_cons_self, taken.imp_right .inl⟩
      · rcases induction found with ⟨listed, marked | defined | repeated⟩
        · refine ⟨.tail _ listed, ?_⟩
          rw [Marks.contains_insert, Bool.or_eq_true, decide_eq_true_eq] at marked
          rcases marked with rfl | marked
          · exact .inr (.inr (.cons_mem listed))
          · exact .inl marked
        · exact ⟨.tail _ listed, .inr (.inl defined)⟩
        · exact ⟨.tail _ listed, .inr (.inr (.cons_duplicate repeated))⟩

/-! ## The walk over the listed gates -/

theorem listedBelow_eq_ok_iff {id : Nat} {children : List Nat} :
    listedBelow definitions id = .ok children ↔
      ∃ definition, definition? definitions id = some definition ∧
        children = [definition.right.node, definition.left.node].filter fun fanin =>
          (definition? definitions fanin).isSome := by
  rw [listedBelow]
  cases definition? definitions id with
  | none => simp
  | some definition =>
      simp only [Except.ok.injEq, Option.some.injEq, exists_eq_left']
      exact eq_comm

theorem depends_of_leads {upper lower : Nat} (leads : (explorer definitions).Leads upper lower) :
    Depends definitions upper lower ∧ lower ∈ definitions.map Definition.id := by
  rcases leads with ⟨nodes, below, member⟩
  rcases listedBelow_eq_ok_iff.mp below with ⟨gate, found, rfl⟩
  rcases mem_of_definition? found with ⟨gateMember, rfl⟩
  rcases List.mem_filter.mp member with ⟨reads, listed⟩
  refine ⟨⟨gate, gateMember, rfl, ?_⟩, isSome_definition?_iff.mp listed⟩
  rcases List.mem_pair.mp reads with rfl | rfl
  · exact .inr rfl
  · exact .inl rfl

theorem leads_of_depends (nodup : (definitions.map Definition.id).Nodup) {upper lower : Nat}
    (depends : Depends definitions upper lower) (listed : lower ∈ definitions.map Definition.id) :
    (explorer definitions).Leads upper lower := by
  rcases depends with ⟨gate, member, rfl, reads⟩
  refine ⟨_, listedBelow_eq_ok_iff.mpr
    ⟨gate, (definition?_eq_some_iff nodup).mpr ⟨member, rfl⟩, rfl⟩, ?_⟩
  rw [List.mem_filter, isSome_definition?_iff]
  refine ⟨?_, listed⟩
  rcases reads with rfl | rfl <;> simp

theorem transGen_leads (nodup : (definitions.map Definition.id).Nodup) {upper lower : Nat}
    (path : Relation.TransGen (Depends definitions) upper lower)
    (listed : lower ∈ definitions.map Definition.id) :
    Relation.TransGen (explorer definitions).Leads upper lower := by
  induction path with
  | single depends => exact .single (leads_of_depends nodup depends listed)
  | tail _ depends induction =>
      rcases id depends with ⟨gate, member, rfl, -⟩
      exact (induction (List.mem_map_of_mem member)).tail (leads_of_depends nodup depends listed)

theorem misplaced_of_explore {failure : Error}
    (failed : ((explorer definitions).explore (definitions.map Definition.id)).2 = some failure) :
    Misplaced graph definitions failure := by
  cases Explorer.caused_of_exploreFrom failed with
  | unexpanded member path below =>
      -- whatever is entered is listed, and a listed gate can be expanded
      exfalso
      rename_i root id
      have listed : id ∈ definitions.map Definition.id := by
        cases path with
        | refl => exact member
        | tail _ edge => exact (depends_of_leads edge.1).2
      rcases Option.isSome_iff_exists.mp (isSome_definition?_iff.mpr listed) with ⟨gate, found⟩
      cases below.symm.trans (listedBelow_eq_ok_iff.mpr ⟨gate, found, rfl⟩)
  | refused _ _ _ refusal => cases refusal
  | cycle _ _ around =>
      exact .cycle (Relation.TransGen.mono (fun _ _ edge => (depends_of_leads edge.1).1) _ _ around)

/-! ## Placing in order -/

theorem growsBy_order (success : order.foldlM (placeGate definitions) graph = .ok after) :
    ∃ placed : List Definition, placed.map Definition.id = order ∧ placed ⊆ definitions ∧
      graph.GrowsBy (gateNodes placed) after := by
  induction order generalizing graph with
  | nil =>
      cases success
      exact ⟨[], rfl, List.nil_subset _, rfl⟩
  | cons id others induction =>
      rw [List.foldlM_cons, Result.bind_eq_ok_iff] at success
      rcases success with ⟨grown, growing, rest⟩
      rcases induction rest with ⟨placed, same, listed, grownBy⟩
      rw [placeGate] at growing
      split at growing
      · cases growing
      · rename_i definition found
        rcases mem_of_definition? found with ⟨member, rfl⟩
        exact ⟨definition :: placed, congrArg (definition.id :: ·) same,
          List.cons_subset.mpr ⟨member, listed⟩, grown, Graph.grows_addGateAt growing, grownBy⟩

theorem isOutput_eq_false (bare : graph.Bare) {placed : List Definition}
    (grown : graph.GrowsBy (gateNodes placed) after) {id : Nat} {node : Node}
    (found : after.node? id = some node) : node.kind.isOutput = false := by
  rcases (grown.kind_iff id node.kind).mp (by rw [found, Option.map_some]) with before | new
  · rcases Option.map_eq_some_iff.mp before with ⟨old, oldFound, same⟩
    rw [← same]
    rcases bare.sources id old oldFound with constant | input
    · rw [constant]
      rfl
    · rw [input]
      rfl
  · rcases List.mem_map.mp new with ⟨gate, -, same⟩
    rw [← (Prod.mk.inj same).2]
    rfl

theorem misplaced_of_addGateAt (bare : graph.Bare) {placed : List Definition}
    (grown : graph.GrowsBy (gateNodes placed) after) {gate : Definition}
    (member : gate ∈ definitions) (small : gate.id + 1 < 2 ^ 64)
    (undefined : graph.isDefined gate.id = false) (unplaced : gate.id ∉ placed.map Definition.id)
    (placedBefore : ∀ fanin ∈ [gate.left, gate.right],
      fanin.node ∈ definitions.map Definition.id → fanin.node ∈ placed.map Definition.id)
    {failure : Error} (failed : after.addGateAt gate.id gate.left gate.right = .error failure) :
    Misplaced graph definitions failure := by
  have defined : ∀ other, after.isDefined other = true ↔
      graph.isDefined other = true ∨ other ∈ placed.map Definition.id := by
    intro other
    rw [grown.isDefined_iff, map_fst_gateNodes]
  have vacant : after.Free gate.id := by
    refine ⟨?_, small, ?_⟩
    · intro zero
      rw [zero, bare.constant] at undefined
      cases undefined
    · rw [← Option.not_isSome_iff_eq_none]
      intro now
      rcases (defined gate.id).mp now with before | inside
      · cases undefined.symm.trans before
      · exact unplaced inside
  rcases Graph.of_addGateAt_eq_error vacant failed with
    ⟨fanin, reads, ⟨missing, rfl⟩ | ⟨node, present, output⟩⟩
  · have absent : ¬after.isDefined fanin.node = true := by simp [Graph.isDefined, missing]
    rw [defined, not_or, Bool.not_eq_true] at absent
    exact .unknown member reads absent.1 fun listed => absent.2 (placedBefore fanin reads listed)
  · cases (isOutput_eq_false bare grown present).symm.trans output

theorem misplaced_of_order (bare : graph.Bare)
    (free : ∀ gate ∈ definitions, gate.id + 1 < 2 ^ 64 ∧ graph.isDefined gate.id = false)
    {nodes : List Nat} (sorted : (explorer definitions).Sorted nodes) {failure : Error}
    (failed : nodes.reverse.foldlM (placeGate definitions) graph = .error failure) :
    Misplaced graph definitions failure := by
  induction nodes with
  | nil => cases failed
  | cons id earlier induction =>
      rcases sorted with ⟨unplaced, ⟨children, below, placedBefore⟩, sortedBefore⟩
      rw [List.reverse_cons, List.foldlM_append] at failed
      cases placing : earlier.reverse.foldlM (placeGate definitions) graph with
      | error other =>
          rw [placing] at failed
          cases failed
          exact induction sortedBefore placing
      | ok middle =>
          rcases growsBy_order placing with ⟨placed, same, -, grown⟩
          have isPlaced : ∀ other, other ∈ placed.map Definition.id ↔ other ∈ earlier := by
            intro other
            rw [same, List.mem_reverse]
          rcases listedBelow_eq_ok_iff.mp below with ⟨gate, found, rfl⟩
          rcases mem_of_definition? found with ⟨member, rfl⟩
          rcases free gate member with ⟨small, undefined⟩
          rw [placing] at failed
          change (placeGate definitions middle gate.id >>= pure) = .error failure at failed
          rw [bind_pure, placeGate, found] at failed
          refine misplaced_of_addGateAt bare grown member small undefined
            (mt (isPlaced gate.id).mp unplaced) ?_ failed
          intro fanin reads listed
          rw [isPlaced]
          apply placedBefore
          rw [List.mem_filter, isSome_definition?_iff]
          refine ⟨?_, listed⟩
          rcases List.mem_pair.mp reads with rfl | rfl <;> simp

/-! ## Placing all gates -/

theorem placeGates_eq_ok_iff : placeGates definitions graph = .ok after ↔
    taken? graph definitions (.none graph.size) = none ∧ ∃ finished,
      (explorer definitions).explore (definitions.map Definition.id) = (finished, none) ∧
        finished.order.foldlM (placeGate definitions) graph = .ok after := by
  rw [placeGates]
  cases taken? graph definitions (.none graph.size) with
  | some id => simp [throw, throwThe, MonadExceptOf.throw, bind, Except.bind]
  | none =>
      rcases (explorer definitions).explore (definitions.map Definition.id) with
        ⟨finished, failure?⟩
      simp only [Result.bind_eq_ok_iff]
      cases failure? with
      | some failure => simp [throw, throwThe, MonadExceptOf.throw]
      | none => simp [Result.pure_eq_ok_iff]

theorem order_perm {finished : Finished} (nodup : (definitions.map Definition.id).Nodup)
    (explored : (explorer definitions).explore (definitions.map Definition.id) =
      (finished, none)) : finished.order.Perm (definitions.map Definition.id) := by
  have visits := (explorer definitions).visits_explore (definitions.map Definition.id)
  rw [explored] at visits
  apply (List.reverse_perm finished.nodes).trans
  apply (List.perm_ext_iff_of_nodup visits.sorted.nodup nodup).mpr
  intro id
  constructor
  · intro member
    rcases visits.sorted.exists_below member with ⟨children, below⟩
    rw [← isSome_definition?_iff]
    change listedBelow definitions id = .ok children at below
    rw [listedBelow] at below
    split at below
    · cases below
    · rename_i definition found
      rw [found, Option.isSome_some]
  · exact visits.finished rfl id

theorem growsBy_gates (success : placeGates definitions graph = .ok after) :
    ∃ placed : List Definition, placed.Perm definitions ∧
      graph.GrowsBy (gateNodes placed) after := by
  rcases placeGates_eq_ok_iff.mp success with ⟨untaken, finished, explored, placing⟩
  have nodup := (taken?_eq_none_iff.mp untaken).1
  rcases growsBy_order placing with ⟨placed, same, listed, grown⟩
  have perm := order_perm nodup explored
  rw [← same] at perm
  have placedNodup : placed.Nodup := ((perm.nodup_iff).mpr nodup).of_map
  have length : placed.length = definitions.length := by simpa using perm.length_eq
  exact ⟨placed, (List.subperm_of_subset placedNodup listed).perm_of_length_le length.ge, grown⟩

theorem placeGates_of_taken {id : Nat}
    (taken : taken? graph definitions (.none graph.size) = some id) :
    placeGates definitions graph = .error (.duplicateId id) := by
  rw [placeGates, taken]
  rfl

theorem misplaced_of_placeGates (bare : graph.Bare)
    (small : ∀ gate ∈ definitions, gate.id + 1 < 2 ^ 64) {failure : Error}
    (failed : placeGates definitions graph = .error failure) :
    Misplaced graph definitions failure := by
  cases taken : taken? graph definitions (.none graph.size) with
  | some id =>
      rw [placeGates_of_taken taken] at failed
      cases failed
      rcases of_taken?_eq_some taken with ⟨listed, marked | why⟩
      · rw [Marks.contains_none] at marked
        cases marked
      · exact .taken listed why
  | none =>
      have free := (taken?_eq_none_iff.mp taken).2
      have visits := (explorer definitions).visits_explore (definitions.map Definition.id)
      have stops : ((explorer definitions).explore (definitions.map Definition.id)).2 =
          some failure → Misplaced graph definitions failure := misplaced_of_explore
      rw [placeGates, taken] at failed
      rcases explored : (explorer definitions).explore (definitions.map Definition.id) with
        ⟨finished, failure?⟩
      rw [explored] at visits failed stops
      simp only at failed
      cases placing : finished.order.foldlM (placeGate definitions) graph with
      | error other =>
          rw [placing] at failed
          cases failed
          exact misplaced_of_order bare
            (fun gate member => ⟨small gate member, (free gate member).2⟩) visits.sorted placing
      | ok placed =>
          rw [placing] at failed
          cases failure? with
          | none => cases failed
          | some other =>
              cases failed
              exact stops rfl

theorem placeable_of_placeGates (success : placeGates definitions graph = .ok after) :
    Placeable graph definitions := by
  rcases placeGates_eq_ok_iff.mp success with ⟨untaken, finished, explored, -⟩
  rcases taken?_eq_none_iff.mp untaken with ⟨nodup, free⟩
  rcases growsBy_gates success with ⟨placed, perm, grown⟩
  refine ⟨nodup, fun gate member => (free gate member).2, ?_, ?_⟩
  · intro gate member fanin reads
    have node : (gate.id, Kind.gate gate.left gate.right) ∈ gateNodes placed :=
      List.mem_map.mpr ⟨gate, perm.mem_iff.mpr member, rfl⟩
    have defined := (grown.isDefined_iff fanin.node).mp (grown.isDefined_fanin node reads)
    rwa [map_fst_gateNodes, (perm.map Definition.id).mem_iff] at defined
  · intro id around
    have visits := (explorer definitions).visits_explore (definitions.map Definition.id)
    rw [explored] at visits
    have listed : id ∈ definitions.map Definition.id := by
      rcases Relation.TransGen.head'_iff.mp around with ⟨-, ⟨gate, member, rfl, -⟩, -⟩
      exact List.mem_map_of_mem member
    exact visits.sorted.not_transGen (visits.finished rfl id listed)
      (transGen_leads nodup around listed)

theorem exists_placeGates (bare : graph.Bare)
    (small : ∀ gate ∈ definitions, gate.id + 1 < 2 ^ 64) (placeable : Placeable graph definitions) :
    ∃ after, placeGates definitions graph = .ok after := by
  cases placing : placeGates definitions graph with
  | ok after => exact ⟨after, rfl⟩
  | error failure =>
      exfalso
      cases misplaced_of_placeGates bare small placing with
      | taken listed taken =>
          rcases taken with defined | repeated
          · rcases List.mem_map.mp listed with ⟨gate, member, rfl⟩
            cases (placeable.free gate member).symm.trans defined
          · exact List.nodup_iff_forall_not_duplicate.mp placeable.nodup _ repeated
      | unknown member reads undefined unlisted =>
          rcases placeable.known _ member _ reads with defined | listed
          · cases undefined.symm.trans defined
          · exact unlisted listed
      | cycle around => exact placeable.acyclic _ around

theorem exists_duplicateId_iff (bare : graph.Bare)
    (small : ∀ gate ∈ definitions, gate.id + 1 < 2 ^ 64) :
    (∃ id, placeGates definitions graph = .error (.duplicateId id)) ↔
      ¬(definitions.map Definition.id).Nodup ∨
        ∃ gate ∈ definitions, graph.isDefined gate.id = true := by
  constructor
  · rintro ⟨id, failed⟩
    cases misplaced_of_placeGates bare small failed with
    | taken listed taken =>
        rcases taken with defined | repeated
        · rcases List.mem_map.mp listed with ⟨gate, member, rfl⟩
          exact .inr ⟨gate, member, defined⟩
        · exact .inl fun nodup => List.nodup_iff_forall_not_duplicate.mp nodup _ repeated
  · intro taken
    cases found : taken? graph definitions (.none graph.size) with
    | some id => exact ⟨id, placeGates_of_taken found⟩
    | none =>
        rcases taken?_eq_none_iff.mp found with ⟨nodup, free⟩
        rcases taken with repeated | ⟨gate, member, defined⟩
        · exact absurd nodup repeated
        · cases (free gate member).2.symm.trans defined

/-- In a graph that holds only what gates may read, the listed gates are placed exactly if
their ids are free and all different, whatever they read is there or listed, and none of them
depends on itself. Then each of them is added, with what it reads, and nothing else. An id is
reported as taken exactly if some id is, and whatever is reported is the case. An id must fit
its slot; no line can hold one that does not, for what it holds is twice the id. -/
theorem placeGates_exact (bare : graph.Bare)
    (small : ∀ gate ∈ definitions, gate.id + 1 < 2 ^ 64) :
    ((∃ after, placeGates definitions graph = .ok after) ↔ Placeable graph definitions) ∧
    (∀ after, placeGates definitions graph = .ok after →
      (∃ placed : List Definition, placed.Perm definitions ∧
        graph.GrowsBy (gateNodes placed) after) ∧
      ∀ id kind, (after.node? id).map Node.kind = some kind ↔
        (graph.node? id).map Node.kind = some kind ∨
          ∃ gate ∈ definitions, gate.id = id ∧ kind = .gate gate.left gate.right) ∧
    ((∃ id, placeGates definitions graph = .error (.duplicateId id)) ↔
      ¬(definitions.map Definition.id).Nodup ∨
        ∃ gate ∈ definitions, graph.isDefined gate.id = true) ∧
    ∀ failure, placeGates definitions graph = .error failure →
      Misplaced graph definitions failure := by
  refine ⟨⟨?_, exists_placeGates bare small⟩, ?_, exists_duplicateId_iff bare small,
    fun failure => misplaced_of_placeGates bare small⟩
  · rintro ⟨after, success⟩
    exact placeable_of_placeGates success
  · intro after success
    rcases growsBy_gates success with ⟨placed, perm, grown⟩
    refine ⟨⟨placed, perm, grown⟩, ?_⟩
    intro id kind
    rw [grown.kind_iff]
    simp only [gateNodes, List.mem_map, perm.mem_iff, Prod.mk.injEq, eq_comm]

def gapped : Graph where
  slots := #[some { kind := .constant }, some { kind := .input }, none, some { kind := .input }]
  inputs := [1, 3]
  outputs := []

theorem bare_gapped : gapped.Bare where
  constant := rfl
  sources id node found := by
    rcases id with _ | _ | _ | _ | id
    · cases found
      exact .inl rfl
    · cases found
      exact .inr rfl
    · cases found
    · cases found
      exact .inr rfl
    · simp [Graph.node?, gapped] at found

/-- A gate may be listed before one that it reads. It may not read one that reads it, nor an
empty slot, and no two gates may have the same id. -/
theorem placeGates_exact_gapped :
    let lower : Definition := ⟨4, .plain 3, .plain 1⟩
    let upper : Definition := ⟨5, .plain 4, ⟨1, true⟩⟩
    let twisted : Definition := ⟨4, .plain 5, .plain 1⟩
    let astray : Definition := ⟨5, .plain 2, .plain 1⟩
    gapped.Bare ∧
    (∃ after, placeGates [upper, lower] gapped = .ok after ∧
      Placeable gapped [upper, lower] ∧
        (after.node? 5).map Node.kind = some (.gate (.plain 4) ⟨1, true⟩)) ∧
    (placeGates [upper, twisted] gapped = .error (.defect (.gateOnCycle 5)) ∧
      Relation.TransGen (Depends [upper, twisted]) 5 5) ∧
    (placeGates [astray, lower] gapped = .error (.missingNode 2) ∧
      Misplaced gapped [astray, lower] (.missingNode 2)) ∧
    ∃ id, placeGates [upper, lower, upper] gapped = .error (.duplicateId id) := by
  intro lower upper twisted astray
  refine ⟨bare_gapped, ?_, ?_, ?_, ?_⟩
  · have small : ∀ gate ∈ [upper, lower], gate.id + 1 < 2 ^ 64 := by decide
    have success : (placeGates [upper, lower] gapped).isOk = true := by decide +kernel
    rcases placeGates_exact bare_gapped small with ⟨possible, exactly, -, -⟩
    cases placed : placeGates [upper, lower] gapped with
    | error failure =>
        rw [placed] at success
        cases success
    | ok after =>
        refine ⟨after, rfl, possible.mp ⟨after, placed⟩, ?_⟩
        exact ((exactly after placed).2 5 _).mpr (.inr ⟨upper, List.mem_cons_self, rfl, rfl⟩)
  · have failed : placeGates [upper, twisted] gapped = .error (.defect (.gateOnCycle 5)) := by
      decide +kernel
    cases (placeGates_exact bare_gapped (by decide)).2.2.2 _ failed with
    | cycle around => exact ⟨failed, around⟩
  · have failed : placeGates [astray, lower] gapped = .error (.missingNode 2) := by decide +kernel
    exact ⟨failed, (placeGates_exact bare_gapped (by decide)).2.2.2 _ failed⟩
  · exact (placeGates_exact bare_gapped (by decide)).2.2.1.mpr (.inl (by decide))

end Aiger

end AndInverter
