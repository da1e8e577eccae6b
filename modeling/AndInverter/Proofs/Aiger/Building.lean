import AndInverter.Proofs.Aiger.Placement
import AndInverter.Proofs.Aiger.Reading

namespace AndInverter.Aiger

open AndInverter.Graph (Comprises GrowsBy Readable)

/-! From a description to its graph. Where the ids are in range, a description can be built
exactly when it is sensible, and what is built is the graph that it describes. -/

def Circuit.build (circuit : Circuit) : Result Graph := do
  let reserved ← Graph.empty.reserve circuit.largest
  let declared ← circuit.inputs.foldlM (fun graph id => graph.addInputAt id) reserved
  let placed ← placeGates circuit.gates declared
  addOutputs circuit.outputs placed

variable {graph after : Graph} {definitions : List Definition} {drivers : List Literal}
  {ids : List Nat}

/-! ## Inputs -/

theorem growsBy_inputs
    (success : ids.foldlM (fun graph id => graph.addInputAt id) graph = .ok after) :
    graph.GrowsBy (inputNodes ids) after := by
  induction ids generalizing graph with
  | nil =>
      cases success
      rfl
  | cons id others induction =>
      rw [List.foldlM_cons, Result.bind_eq_ok_iff] at success
      rcases success with ⟨grown, growing, rest⟩
      exact ⟨grown, Graph.grows_addInputAt growing, induction rest⟩

theorem exists_inputs (nodup : ids.Nodup)
    (free : ∀ id ∈ ids, id ≠ 0 ∧ id + 1 < 2 ^ 64 ∧ graph.node? id = none) :
    ∃ after, ids.foldlM (fun graph id => graph.addInputAt id) graph = .ok after := by
  induction ids generalizing graph with
  | nil => exact ⟨graph, rfl⟩
  | cons id others induction =>
      rcases List.nodup_cons.mp nodup with ⟨unlisted, othersNodup⟩
      rcases List.forall_mem_cons.mp free with ⟨⟨positive, small, head⟩, tail⟩
      rcases Graph.exists_addInputAt positive small head with ⟨grown, growing⟩
      have grows := Graph.grows_addInputAt growing
      have still : ∀ other ∈ others,
          other ≠ 0 ∧ other + 1 < 2 ^ 64 ∧ grown.node? other = none := by
        intro other member
        rcases tail other member with ⟨positive, small, vacant⟩
        exact ⟨positive, small, grows.missing other (fun same => unlisted (same ▸ member)) vacant⟩
      rcases induction othersNodup still with ⟨after, success⟩
      refine ⟨after, ?_⟩
      rw [List.foldlM_cons, Result.bind_eq_ok_iff]
      exact ⟨grown, growing, success⟩

/-! ## Outputs -/

theorem growsBy_outputs (success : addOutputs drivers graph = .ok after) :
    graph.GrowsBy (outputNodes graph.size drivers) after ∧
      after.size = graph.size + drivers.length := by
  induction drivers generalizing graph with
  | nil =>
      cases success
      exact ⟨rfl, rfl⟩
  | cons driver others induction =>
      simp only [addOutputs, List.foldlM_cons, Result.bind_eq_ok_iff,
        Result.pure_eq_ok_iff] at success
      rcases success with ⟨-, ⟨⟨id, grown⟩, growing, rfl⟩, rest⟩
      have grows := Graph.grows_addOutput growing
      rcases Graph.addOutput_eq_ok growing with rfl
      have size : grown.size = graph.size + 1 := by
        rw [grows.size]
        omega
      rcases induction rest with ⟨grown, total⟩
      rw [size] at grown total
      exact ⟨⟨_, grows, grown⟩, by rw [total, List.length_cons]; omega⟩

theorem exists_outputs (readable : ∀ driver ∈ drivers, graph.Readable driver) :
    ∃ after, addOutputs drivers graph = .ok after := by
  induction drivers generalizing graph with
  | nil => exact ⟨graph, rfl⟩
  | cons driver others induction =>
      rcases List.forall_mem_cons.mp readable with ⟨head, tail⟩
      rcases Graph.exists_addOutput head with ⟨grown, growing⟩
      rcases induction fun other member => (tail other member).grows (Graph.grows_addOutput growing)
        with ⟨after, success⟩
      refine ⟨after, ?_⟩
      simp only [addOutputs, List.foldlM_cons, Result.bind_eq_ok_iff, Result.pure_eq_ok_iff]
      exact ⟨grown, ⟨_, growing, rfl⟩, success⟩

/-! ## The whole circuit -/

namespace Circuit

variable {circuit : Circuit}

def sources (circuit : Circuit) : List (Nat × Kind) :=
  (0, .constant) :: inputNodes circuit.inputs

theorem Names.gate_or_source {literal : Literal} (named : circuit.Names literal) :
    literal.node ∈ circuit.gates.map Definition.id ∨
      ∃ kind, (literal.node, kind) ∈ circuit.sources ∧ kind.isOutput = false := by
  rcases named with constant | defined
  · exact .inr ⟨.constant, by rw [constant]; exact List.mem_cons_self, rfl⟩
  · rcases List.mem_append.mp defined with input | listed
    · exact .inr ⟨.input, .tail _ (List.mem_map.mpr ⟨_, input, rfl⟩), rfl⟩
    · exact .inl listed

theorem bare_of_comprises (comprises : graph.Comprises circuit.sources) : graph.Bare where
  constant := by
    rcases comprises.exists_node List.mem_cons_self with ⟨node, found, -⟩
    rw [Graph.isDefined, found]
    rfl
  sources id node found := by
    rcases List.mem_cons.mp (comprises.mem found) with constant | input
    · exact .inl (Prod.mk.inj constant).2
    · rcases List.mem_map.mp input with ⟨other, -, same⟩
      exact .inr (Prod.mk.inj same).2.symm

theorem Names.readable {literal : Literal} (named : circuit.Names literal)
    {gates : List Definition} (perm : gates.Perm circuit.gates)
    (comprises : graph.Comprises (circuit.sources ++ gateNodes gates)) :
    graph.Readable literal := by
  rcases named.gate_or_source with listed | ⟨kind, member, noOutput⟩
  · rcases List.mem_map.mp listed with ⟨gate, gateMember, same⟩
    have node : (literal.node, Kind.gate gate.left gate.right) ∈ gateNodes gates :=
      List.mem_map.mpr ⟨gate, perm.mem_iff.mpr gateMember, by rw [same]⟩
    exact comprises.readable (List.mem_append_right _ node) rfl
  · exact comprises.readable (List.mem_append_left _ member) noOutput

namespace Sensible

variable (sensible : circuit.Sensible)

include sensible

theorem bounded_gate {gate : Definition} (member : gate ∈ circuit.gates) :
    1 ≤ gate.id ∧ gate.id ≤ circuit.largest :=
  sensible.bounded gate.id (List.mem_append_right _ (List.mem_map_of_mem member))

theorem placeable (comprises : graph.Comprises circuit.sources) :
    Placeable graph circuit.gates := by
  refine ⟨(List.nodup_append.mp sensible.nodup).2.1, ?_, ?_, sensible.acyclic⟩
  · intro gate member
    rw [Graph.isDefined, Option.isSome_eq_false_iff, Option.isNone_iff_eq_none]
    apply comprises.node?_eq_none
    intro entry source
    rcases List.mem_cons.mp source with rfl | inside
    · exact (Nat.pos_iff_ne_zero.mp (sensible.bounded_gate member).1).symm
    · rcases List.mem_map.mp inside with ⟨id, idMember, rfl⟩
      exact (List.nodup_append.mp sensible.nodup).2.2 id idMember gate.id
        (List.mem_map_of_mem member)
  · intro gate member fanin reads
    have named : circuit.Names fanin := by
      rcases List.mem_pair.mp reads with rfl | rfl
      · exact (sensible.fanins gate member).1
      · exact (sensible.fanins gate member).2
    rcases named.gate_or_source with listed | ⟨kind, source, -⟩
    · exact .inr listed
    · rcases comprises.exists_node source with ⟨node, found, -⟩
      exact .inl (by rw [Graph.isDefined, found]; rfl)

theorem exists_gates (small : circuit.largest + 1 < 2 ^ 64)
    (comprises : graph.Comprises circuit.sources) :
    ∃ after, placeGates circuit.gates graph = .ok after := by
  refine exists_placeGates (bare_of_comprises comprises) ?_ (sensible.placeable comprises)
  intro gate member
  have bounded := sensible.bounded_gate member
  omega

theorem exists_build (small : circuit.largest + 1 < 2 ^ 64) :
    ∃ graph, circuit.build = .ok graph := by
  rcases (Graph.exists_reserve small : ∃ reserved, Graph.empty.reserve _ = .ok reserved) with
    ⟨reserved, reserving⟩
  rcases Graph.reserve_eq_ok reserving with ⟨-, -, -, nodes⟩
  have constant := Graph.comprises_empty.of_node?_eq nodes
  have free : ∀ id ∈ circuit.inputs, id ≠ 0 ∧ id + 1 < 2 ^ 64 ∧ reserved.node? id = none := by
    intro id member
    have bounded := sensible.bounded id (List.mem_append_left _ member)
    refine ⟨by omega, by omega, constant.node?_eq_none ?_⟩
    rintro entry entryMember rfl
    rw [List.mem_singleton.mp entryMember] at bounded
    exact absurd bounded.1 (by decide)
  rcases exists_inputs (List.nodup_append.mp sensible.nodup).1 free with ⟨declared, declaring⟩
  have inputs := (growsBy_inputs declaring).comprises constant
  rcases sensible.exists_gates small inputs with ⟨placed, placing⟩
  rcases growsBy_gates placing with ⟨gates, perm, grown⟩
  have readable : ∀ driver ∈ circuit.outputs, placed.Readable driver := fun driver member =>
    (sensible.outputs driver member).readable perm (grown.comprises inputs)
  rcases exists_outputs readable with ⟨graph, adding⟩
  refine ⟨graph, ?_⟩
  simp only [build, Result.bind_eq_ok_iff]
  exact ⟨reserved, reserving, declared, declaring, placed, placing, adding⟩

end Sensible

/-! ## What is built -/

theorem names_of_mem_nodes {literal : Literal} {kind : Kind}
    (member : (literal.node, kind) ∈ circuit.nodes) (noOutput : kind.isOutput = false) :
    circuit.Names literal := by
  simp only [nodes, List.mem_append, List.mem_cons] at member
  rcases member with ((constant | input) | gate) | output
  · rw [Prod.mk.injEq] at constant
    exact .inl constant.1
  · rcases List.mem_map.mp input with ⟨id, idMember, same⟩
    rw [Prod.mk.injEq] at same
    exact .inr (List.mem_append_left _ (same.1 ▸ idMember))
  · rcases List.mem_map.mp gate with ⟨definition, definitionMember, same⟩
    rw [Prod.mk.injEq] at same
    exact .inr (List.mem_append_right _ (same.1 ▸ List.mem_map_of_mem definitionMember))
  · rcases List.mem_map.mp output with ⟨⟨driver, id⟩, -, same⟩
    rw [Prod.mk.injEq] at same
    rw [← same.2] at noOutput
    cases noOutput

theorem gate_mem_nodes {gate : Definition} (member : gate ∈ circuit.gates) :
    (gate.id, Kind.gate gate.left gate.right) ∈ circuit.nodes := by
  simp only [nodes, gateNodes, List.mem_append, List.mem_map]
  exact .inl (.inr ⟨gate, member, rfl⟩)

theorem exists_output_mem_nodes {driver : Literal} (member : driver ∈ circuit.outputs) :
    ∃ id, (id, Kind.output driver) ∈ circuit.nodes := by
  rw [← List.zipIdx_map_fst (circuit.largest + 1) circuit.outputs] at member
  rcases List.mem_map.mp member with ⟨⟨driver, id⟩, position, rfl⟩
  exact ⟨id, List.mem_append_right _ (List.mem_map.mpr ⟨(driver, id), position, rfl⟩)⟩

section Built

variable (bounded : ∀ id ∈ circuit.defined, id ≤ circuit.largest)
  (success : circuit.build = .ok graph)

include bounded success

/-- A whole file is built by adding one node after the other to the constant. -/
theorem growsBy_build : ∃ reserved gates,
    Graph.empty.reserve circuit.largest = .ok reserved ∧ gates.Perm circuit.gates ∧
      reserved.GrowsBy (inputNodes circuit.inputs ++ gateNodes gates ++
        outputNodes (circuit.largest + 1) circuit.outputs) graph ∧
          graph.size = circuit.largest + 1 + circuit.outputs.length := by
  simp only [build, Result.bind_eq_ok_iff] at success
  rcases success with ⟨reserved, reserving, declared, declaring, placed, placing, adding⟩
  rcases Graph.reserve_eq_ok reserving with ⟨reservedSize, -, -, -⟩
  rcases growsBy_gates placing with ⟨gates, perm, grown⟩
  rcases growsBy_outputs adding with ⟨last, total⟩
  have both := (growsBy_inputs declaring).trans grown
  have size : placed.size = circuit.largest + 1 := by
    rw [both.size_eq, reservedSize]
    · exact Nat.max_eq_right (Nat.succ_le_succ (Nat.zero_le _))
    · intro entry member
      have inside : entry.1 ∈ circuit.defined := by
        rw [defined, List.mem_append]
        rcases List.mem_append.mp member with input | gate
        · rcases List.mem_map.mp input with ⟨id, idMember, rfl⟩
          exact .inl idMember
        · rcases List.mem_map.mp gate with ⟨definition, definitionMember, rfl⟩
          exact .inr (List.mem_map_of_mem (perm.mem_iff.mp definitionMember))
      have := bounded entry.1 inside
      omega
  rw [size] at last total
  exact ⟨reserved, gates, reserving, perm, both.trans last, total⟩

theorem describes_of_build : circuit.Describes graph := by
  rcases growsBy_build bounded success with ⟨reserved, gates, reserving, perm, grown, size⟩
  rcases Graph.reserve_eq_ok reserving with ⟨-, noInputs, noOutputs, nodes⟩
  refine ⟨size, ?_, ?_, ?_⟩
  · rw [grown.inputs, noInputs]
    simp [Graph.empty, inputNodes, gateNodes, outputNodes, List.filter_map, Function.comp_def,
      Kind.isInput]
  · rw [grown.outputs, noOutputs]
    simp [Graph.empty, inputNodes, gateNodes, outputNodes, List.filter_map, Function.comp_def,
      Kind.isOutput, List.zipIdx_map_snd]
  · apply (grown.comprises (Graph.comprises_empty.of_node?_eq nodes)).congr
    intro entry
    simp only [Circuit.nodes, gateNodes, List.mem_append, List.mem_cons, List.mem_map,
      perm.mem_iff, List.not_mem_nil, or_false, or_assoc]

theorem label?_of_build (id : Nat) : graph.label? id = none := by
  rcases growsBy_build bounded success with ⟨reserved, gates, reserving, -, grown, -⟩
  rcases Graph.reserve_eq_ok reserving with ⟨-, -, -, nodes⟩
  rw [grown.label?, Graph.label?, nodes]
  cases id with
  | zero => rfl
  | succ id => simp [Graph.node?, Graph.empty]

theorem whole_of_build : Whole graph := by
  rcases growsBy_build bounded success with ⟨reserved, gates, reserving, -, grown, -⟩
  exact (Whole.empty.of_sameWiring (Graph.sameWiring_reserve reserving)).growsBy grown

theorem fanin_of_build {id : Nat} {kind : Kind} (member : (id, kind) ∈ circuit.nodes)
    {literal : Literal} (inside : literal ∈ kind.fanins) :
    graph.Follows id literal.node ∧ circuit.Names literal := by
  have whole := whole_of_build bounded success
  have comprises := (describes_of_build bounded success).comprises
  rcases comprises.exists_node member with ⟨node, found, rfl⟩
  have edge : graph.Reads id literal.node := ⟨literal, by rwa [Graph.fanins_of_node? found], rfl⟩
  rcases whole.consistent.fanins_defined id literal.node edge with ⟨driver, driverFound, noOutput⟩
  exact ⟨⟨(Graph.isActive_of_node? found).trans (comprises.active found), edge⟩,
    names_of_mem_nodes (comprises.mem driverFound) noOutput⟩

theorem nodup_of_build : circuit.defined.Nodup ∧ 0 ∉ circuit.defined := by
  rcases growsBy_build bounded success with ⟨reserved, gates, reserving, perm, grown, -⟩
  rcases Graph.reserve_eq_ok reserving with ⟨-, -, -, nodes⟩
  have ids : (inputNodes circuit.inputs ++ gateNodes gates).map Prod.fst =
      circuit.inputs ++ gates.map Definition.id := by
    simp [inputNodes, gateNodes, Function.comp_def]
  have same : (circuit.inputs ++ gates.map Definition.id).Perm circuit.defined :=
    (perm.map Definition.id).append_left circuit.inputs
  constructor
  · have nodup := grown.nodup
    rw [List.map_append, ids] at nodup
    exact same.nodup_iff.mp (List.nodup_append.mp nodup).1
  · intro member
    rw [← same.mem_iff, ← ids] at member
    rcases List.mem_map.mp member with ⟨entry, entryMember, zero⟩
    have free := grown.fresh entry (List.mem_append_left _ entryMember)
    rw [nodes, zero] at free
    cases free

theorem sensible_of_build : circuit.Sensible := by
  have whole := whole_of_build bounded success
  have defined := nodup_of_build bounded success
  refine ⟨defined.1, ?_, ?_, ?_, ?_⟩
  · intro id member
    refine ⟨Nat.one_le_iff_ne_zero.mpr ?_, bounded id member⟩
    rintro rfl
    exact defined.2 member
  · intro gate member
    have node := gate_mem_nodes member
    exact ⟨(fanin_of_build bounded success node (by simp [Kind.fanins])).2,
      (fanin_of_build bounded success node (by simp [Kind.fanins])).2⟩
  · intro driver member
    rcases exists_output_mem_nodes member with ⟨id, node⟩
    exact (fanin_of_build bounded success node (by simp [Kind.fanins])).2
  · intro id path
    have edges : ∀ upper lower, circuit.Reads upper lower → graph.Follows upper lower := by
      rintro upper lower ⟨gate, member, rfl, rfl | rfl⟩
      · exact (fanin_of_build bounded success (gate_mem_nodes member) (by simp [Kind.fanins])).1
      · exact (fanin_of_build bounded success (gate_mem_nodes member) (by simp [Kind.fanins])).1
    exact whole.consistent.acyclic.not_transGen id (Relation.TransGen.mono edges id id path)

end Built

end Circuit

end AndInverter.Aiger
