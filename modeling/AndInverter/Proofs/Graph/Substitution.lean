import AndInverter.Proofs.Graph.InPlace
import AndInverter.Proofs.Traversal.Cone
import Mathlib.Logic.Function.Basic

namespace AndInverter.Graph

/-! Replacing is substituting. A replacement makes a cycle exactly where the gate is in the
cone of the replacement. Where it makes none, every node takes the value that it has when the
gate is given the value of the replacement, whatever that value is. -/

variable {graph replaced : Graph} {replacement : Literal} {gate : Nat} {old : Node}

/-! ## Cycles -/

theorem Linked.transGen_replace (linked : graph.Linked)
    (success : graph.replace replacement gate = .ok replaced) {id : Nat}
    (sees : graph.Sees id gate) (different : id ≠ gate) :
    Relation.TransGen replaced.Follows id replacement.node := by
  -- Along the path only the last edge leads to the gate; that one leads to the replacement now.
  induction sees using Relation.ReflTransGen.head_induction_on with
  | refl => exact absurd rfl different
  | @head upper lower edge _ induction =>
      have active : replaced.isActive upper = true := by
        rw [isActive_replace success, edge.1]
        simpa using different
      by_cases last : lower = gate
      · refine .single ⟨active, (linked.reads_replace_iff success edge.1 _).mpr (.inr ⟨?_, rfl⟩)⟩
        exact last ▸ edge.2
      · exact .head ⟨active, (linked.reads_replace_iff success edge.1 _).mpr (.inl ⟨edge.2, last⟩)⟩
          (induction last)

theorem Linked.acyclic_replace_iff (linked : graph.Linked)
    (success : graph.replace replacement gate = .ok replaced) :
    replaced.Acyclic ↔ graph.coneContains replacement.node gate = false := by
  rw [Bool.eq_false_iff, ne_eq, coneContains_iff]
  constructor
  · intro acyclic sees
    rcases replace_eq_ok_iff.mp success with ⟨old, replaceable, -⟩
    exact acyclic.not_transGen _ (linked.transGen_replace success sees replaceable.different)
  · exact linked.acyclic_replace success

/-! ## Values -/

/-- The graph in which the gate is an input of its own. -/
def cut (gate : Nat) (graph : Graph) : Graph :=
  graph.modify gate fun node => { node with kind := .input }

theorem node?_cut_of_ne {id : Nat} (other : id ≠ gate) :
    (graph.cut gate).node? id = graph.node? id := by
  rw [cut, node?_modify, if_neg (Ne.symm other)]

theorem isActive_cut (gate : Nat) (graph : Graph) (id : Nat) :
    (graph.cut gate).isActive id = graph.isActive id := by
  rw [isActive, isActive, cut, node?_modify]
  split
  · cases graph.node? id <;> rfl
  · rfl

theorem reads_of_reads_cut {consumer driver : Nat}
    (reads : (graph.cut gate).Reads consumer driver) :
    consumer ≠ gate ∧ graph.Reads consumer driver := by
  by_cases same : consumer = gate
  · rcases reads with ⟨edge, member, -⟩
    rcases node?_of_mem_fanins member with ⟨node, found, inside⟩
    rw [cut, node?_modify, if_pos same.symm] at found
    rcases Option.map_eq_some_iff.mp found with ⟨before, -, rfl⟩
    cases inside
  · refine ⟨same, ?_⟩
    rwa [Reads, fanins, node?_cut_of_ne same] at reads

theorem WellFormed.exists_takes_cut (wellFormed : graph.WellFormed) (gate : Nat)
    (assignment : Assignment) {id : Nat} (active : graph.isActive id = true) :
    ∃ value, (graph.cut gate).Takes assignment id value := by
  apply Acyclic.exists_takes
  · rcases wellFormed.acyclic with ⟨rank, decreases⟩
    refine ⟨rank, ?_⟩
    intro consumer driver consumerActive reads
    rw [isActive_cut] at consumerActive
    exact decreases consumer driver consumerActive (reads_of_reads_cut reads).2
  · intro consumer driver consumerActive reads
    rw [isActive_cut] at consumerActive ⊢
    exact wellFormed.isActive_driver _ _ consumerActive (reads_of_reads_cut reads).2
  · rwa [isActive_cut]

theorem WellFormed.takes_cut_of_not_sees (wellFormed : graph.WellFormed) {assignment : Assignment}
    {id : Nat} {value : Bool} (forced : Bool) (takes : graph.Takes assignment id value)
    (active : graph.isActive id = true) (unseen : ¬graph.Sees id gate) :
    (graph.cut gate).Takes (Function.update assignment gate forced) id value := by
  have below {consumer : Nat} (consumerActive : graph.isActive consumer = true)
      (consumerUnseen : ¬graph.Sees consumer gate) (driver : Nat)
      (reads : graph.Reads consumer driver) :
      graph.isActive driver = true ∧ ¬graph.Sees driver gate :=
    ⟨wellFormed.isActive_driver _ _ consumerActive reads,
      fun sees => consumerUnseen (.head ⟨consumerActive, reads⟩ sees)⟩
  have kept {other : Nat} (otherUnseen : ¬graph.Sees other gate) : other ≠ gate :=
    fun same => otherUnseen (same ▸ .refl)
  -- By induction on how the value comes about, since what a node reads does not see the gate
  -- where the node does not.
  induction takes with
  | constant found kind => exact .constant ((node?_cut_of_ne (kept unseen)).trans found) kind
  | @input id node found kind =>
      have assigned : Function.update assignment gate forced id = assignment id :=
        Function.update_of_ne (kept unseen) _ _
      rw [← assigned]
      exact .input ((node?_cut_of_ne (kept unseen)).trans found) kind
  | @gate id node left right _ _ found kind _ _ leftInduction rightInduction =>
      have leftBelow := below active unseen left.node
        ⟨left, by rw [fanins_of_node? found, kind]; simp [Kind.fanins], rfl⟩
      have rightBelow := below active unseen right.node
        ⟨right, by rw [fanins_of_node? found, kind]; simp [Kind.fanins], rfl⟩
      exact .gate ((node?_cut_of_ne (kept unseen)).trans found) kind
        (leftInduction leftBelow.1 leftBelow.2) (rightInduction rightBelow.1 rightBelow.2)
  | @output id node driver _ found kind _ driverInduction =>
      have driverBelow := below active unseen driver.node
        ⟨driver, by rw [fanins_of_node? found, kind]; simp [Kind.fanins], rfl⟩
      exact .output ((node?_cut_of_ne (kept unseen)).trans found) kind
        (driverInduction driverBelow.1 driverBelow.2)

theorem carries_redirect_cut {assignment : Assignment} {forced : Bool}
    (found : graph.node? gate = some old)
    (carries : (graph.cut gate).Carries (Function.update assignment gate forced) replacement forced)
    {edge : Literal} {value : Bool}
    (edgeCarries : (graph.cut gate).Carries (Function.update assignment gate forced) edge value) :
    (graph.cut gate).Carries (Function.update assignment gate forced)
      (redirect replacement gate edge) value := by
  by_cases same : edge.node = gate
  · have gateFound : (graph.cut gate).node? gate = some { old with kind := .input } := by
      rw [cut, node?_modify, if_pos rfl, found, Option.map_some]
    rw [Carries, same, takes_input_iff gateFound rfl, Function.update_self] at edgeCarries
    rwa [redirect_of_eq same, carries_xor_iff, edgeCarries]
  · rwa [redirect_of_ne same]

/-- Replacing is substituting: the nodes that are left take the values that they have when
the gate is given the value of the replacement. -/
theorem WellFormed.takes_replace (wellFormed : graph.WellFormed)
    (success : graph.replace replacement gate = .ok replaced) (acyclic : replaced.Acyclic)
    (assignment : Assignment) : ∃ forced, graph.Carries assignment replacement forced ∧
      ∀ id, replaced.isActive id = true → ∃ value,
        (graph.cut gate).Takes (Function.update assignment gate forced) id value ∧
          replaced.Takes assignment id value := by
  rcases replace_eq_ok_iff.mp success with ⟨old, replaceable, rfl⟩
  have unseen : ¬graph.Sees replacement.node gate := by
    rw [← coneContains_iff, Bool.not_eq_true]
    exact (wellFormed.acyclic_replace_iff success).mp acyclic
  rcases wellFormed.exists_carries assignment replaceable.isActive_target with ⟨forced, carries⟩
  have carriesCut := wellFormed.takes_cut_of_not_sees forced carries replaceable.isActive_target
    unseen
  have kept : ∀ id, (graph.mapNodes (replaceInNode replacement gate old.fanouts)).isActive id =
      true → graph.isActive id = true ∧ id ≠ gate := by
    intro id active
    rw [isActive_replace success, Bool.and_eq_true, decide_eq_true_eq] at active
    exact active
  refine ⟨forced, carries, ?_⟩
  intro id active
  rcases wellFormed.exists_takes_cut gate (Function.update assignment gate forced)
    (kept id active).1 with ⟨value, takes⟩
  refine ⟨value, takes, ?_⟩
  apply takes_of_rewired (wellFormed.wellFormed_replace success unseen) _ _ active takes
  · intro other otherActive
    rcases isActive_eq_true_iff.mp (kept other otherActive).1 with ⟨node, found, -⟩
    exact ⟨⟨node, (node?_cut_of_ne (kept other otherActive).2).trans found⟩,
      (Function.update_of_ne (kept other otherActive).2 _ _).symm⟩
  · intro other node found otherActive
    rw [node?_cut_of_ne (kept other otherActive).2] at found
    have nodeActive := (isActive_of_node? found).symm.trans (kept other otherActive).1
    refine ⟨redirect replacement gate, _, by rw [node?_mapNodes, found, Option.map_some], ?_, ?_⟩
    · rw [wellFormed.kind_replaceInNode replaceable found, if_pos nodeActive]
    · intro edge _ carried edgeCarries
      exact carries_redirect_cut replaceable.found carriesCut edgeCarries

/-! ## The whole -/

theorem exists_replaceable_iff : (∃ old, graph.Replaceable replacement gate old) ↔
    graph.isGate gate = true ∧ graph.isActive gate = true ∧ replacement.node ≠ gate ∧
      ∃ node, graph.node? replacement.node = some node ∧ node.active = true ∧
        node.kind.isOutput = false := by
  constructor
  · rintro ⟨old, replaceable⟩
    exact ⟨(isGate_of_node? replaceable.found).trans replaceable.isGate,
      replaceable.isActive_gate, replaceable.different, replaceable.target⟩
  · rintro ⟨isGate, isActive, different, target⟩
    rcases isActive_eq_true_iff.mp isActive with ⟨old, found, active⟩
    exact ⟨old, different, found, (isGate_of_node? found).symm.trans isGate, active, target⟩

/-- A replacement is done exactly where it may be, and leaves the graph alone elsewhere. It
removes the gate and keeps the edges in order; it makes a cycle exactly where the gate is in
the cone of the replacement, and is a substitution where it makes none. -/
theorem WellFormed.run_replace_substitutes (wellFormed : graph.WellFormed)
    (replacement : Literal) (gate : Nat) :
    ((∃ after, (Edit.replace replacement gate).run graph = .ok () after) ↔
      graph.isGate gate = true ∧ graph.isActive gate = true ∧ replacement.node ≠ gate ∧
        ∃ node, graph.node? replacement.node = some node ∧ node.active = true ∧
          node.kind.isOutput = false) ∧
    (∀ failure left, (Edit.replace replacement gate).run graph = .error failure left →
      left = graph) ∧
    ∀ after, (Edit.replace replacement gate).run graph = .ok () after →
      (∃ node, after.node? gate = some node ∧ node.active = false ∧ node.fanouts = []) ∧
      (∀ id, after.isActive id = true ↔ graph.isActive id = true ∧ id ≠ gate) ∧
      (∀ id node, after.node? id = some node → node.active = true →
        node.fanouts.Perm (after.edgesFrom id)) ∧
      (after.Acyclic ↔ graph.coneContains replacement.node gate = false) ∧
      (after.Acyclic → ∀ assignment, ∃ forced, graph.Carries assignment replacement forced ∧
        ∀ id, after.isActive id = true → ∃ value,
          (graph.cut gate).Takes (Function.update assignment gate forced) id value ∧
            after.Takes assignment id value) := by
  rw [← exists_replaceable_iff]
  rcases wellFormed.run_replace_cases replacement gate with
    ⟨refused, failure, run⟩ | ⟨old, replaced, after, replaceable, success, run, same, -, found⟩
  · rw [run]
    refine ⟨⟨fun ⟨_, impossible⟩ => (nomatch impossible), fun allowed => absurd allowed refused⟩,
      ?_, fun _ impossible => nomatch impossible⟩
    intro _ _ equal
    cases equal
    rfl
  · rw [run]
    refine ⟨⟨fun _ => ⟨old, replaceable⟩, fun _ => ⟨after, rfl⟩⟩,
      fun _ _ impossible => (nomatch impossible), ?_⟩
    intro _ equal
    cases equal
    have acyclic : after.Acyclic ↔ replaced.Acyclic := ⟨same.symm.acyclic, same.acyclic⟩
    refine ⟨⟨_, found, ?_, ?_⟩, ?_, ?_, ?_, ?_⟩
    · simp [replaceInNode]
    · simp [replaceInNode]
    · intro id
      rw [same.isActive, isActive_replace success, Bool.and_eq_true, decide_eq_true_eq]
    · apply same.perm_fanouts
      intro id node later active
      exact perm_edgesFrom_iff.mpr (wellFormed.count_fanouts_replace success later active)
    · exact acyclic.trans (wellFormed.acyclic_replace_iff success)
    · intro acyclicAfter assignment
      rcases wellFormed.takes_replace success (acyclic.mp acyclicAfter) assignment with
        ⟨forced, carries, values⟩
      refine ⟨forced, carries, ?_⟩
      intro id active
      rcases values id (by rwa [← same.isActive]) with ⟨value, before, later⟩
      exact ⟨value, before, same.takes later⟩

/-- The first gate, which an output reads, gives way to an inverted input. -/
theorem run_replace_substitutes_twins : twins.WellFormed ∧
    ∃ after, (Edit.replace ⟨1, true⟩ 3).run twins = .ok () after ∧
      ∀ assignment, ∃ forced, twins.Carries assignment ⟨1, true⟩ forced ∧
        ∃ value, (twins.cut 3).Takes (Function.update assignment 3 forced) 7 value ∧
          after.Takes assignment 7 value := by
  have wellFormed := consistent_twins.toWellFormed
  rcases wellFormed.run_replace_substitutes ⟨1, true⟩ 3 with ⟨allowed, -, done⟩
  rcases allowed.mpr ⟨by decide, by decide, by decide, _, rfl, rfl, rfl⟩ with ⟨after, run⟩
  rcases done after run with ⟨-, active, -, acyclic, values⟩
  refine ⟨wellFormed, after, run, ?_⟩
  intro assignment
  rcases values (acyclic.mpr (by decide +kernel)) assignment with ⟨forced, carries, taken⟩
  exact ⟨forced, carries, taken 7 ((active 7).mpr ⟨by decide, by decide⟩)⟩

end AndInverter.Graph
