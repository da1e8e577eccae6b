import AndInverter.Graph.Replacement
import AndInverter.Proofs.Graph.Functions
import Mathlib.Data.List.Count

namespace AndInverter.Graph

/-! Replacing a gate in a well-formed graph. The graph stays well-formed as long as
the replacement does not see the gate, and every node that is still active keeps
its function when the gate and the replacement carry the same signal. -/

structure Replaceable (graph : Graph) (replacement : Literal) (gate : Nat) (old : Node) : Prop where
  different : replacement.node ≠ gate
  found : graph.node? gate = some old
  isGate : old.kind.isGate = true
  active : old.active = true
  target : ∃ node, graph.node? replacement.node = some node ∧ node.active = true ∧
    node.kind.isOutput = false

theorem checkReplacement_eq_ok_iff {graph : Graph} {replacement : Literal} {gate : Nat}
    {old : Node} : graph.checkReplacement replacement gate = .ok old ↔
      graph.Replaceable replacement gate old := by
  simp only [checkReplacement, Result.guard_bind_eq_ok_iff, Result.bind_eq_ok_iff,
    Result.pure_eq_ok_iff, node_eq_ok_iff]
  constructor
  · rintro ⟨different, node, found, isGate, active, target, targetFound, usable, rfl⟩
    simp only [Bool.not_eq_true', Bool.or_eq_true, not_or, Bool.not_eq_false,
      Bool.not_eq_true] at isGate active usable
    exact ⟨different, found, isGate, active, target, targetFound, usable⟩
  · intro replaceable
    rcases replaceable.target with ⟨target, targetFound, active, noOutput⟩
    refine ⟨replaceable.different, old, replaceable.found, ?_, ?_, target, targetFound, ?_, rfl⟩
    · simp [replaceable.isGate]
    · simp [replaceable.active]
    · simp [active, noOutput]

theorem replace_eq_ok_iff {graph replaced : Graph} {replacement : Literal} {gate : Nat} :
    graph.replace replacement gate = .ok replaced ↔
      ∃ old, graph.Replaceable replacement gate old ∧
        graph.mapNodes (replaceInNode replacement gate old.fanouts) = replaced := by
  simp only [replace, Result.bind_eq_ok_iff, Result.pure_eq_ok_iff, checkReplacement_eq_ok_iff]

namespace Replaceable

variable {graph : Graph} {replacement : Literal} {gate : Nat} {old : Node}
  (replaceable : graph.Replaceable replacement gate old)

include replaceable

theorem isActive_gate : graph.isActive gate = true :=
  (isActive_of_node? replaceable.found).trans replaceable.active

theorem isActive_target : graph.isActive replacement.node = true := by
  rcases replaceable.target with ⟨target, found, active, -⟩
  exact (isActive_of_node? found).trans active

theorem readable_target : ∃ node, graph.node? replacement.node = some node ∧
    node.kind.isOutput = false := by
  rcases replaceable.target with ⟨target, found, -, noOutput⟩
  exact ⟨target, found, noOutput⟩

theorem fanouts_of_inactive {id : Nat} {node : Node} (found : graph.node? id = some node)
    (inactive : node.active = false) (other : id ≠ gate) :
    (replaceInNode replacement gate old.fanouts id node).fanouts =
      node.fanouts.filter (·.node ≠ gate) := by
  have noTarget : id ≠ replacement.node := by
    intro equal
    have active := replaceable.isActive_target
    rw [← equal, isActive_of_node? found, inactive] at active
    cases active
  simp only [replaceInNode, if_neg other, if_neg noTarget]

end Replaceable

/-! ## One node -/

theorem redirect_of_ne {replacement : Literal} {gate : Nat} {edge : Literal}
    (different : edge.node ≠ gate) : redirect replacement gate edge = edge :=
  if_neg different

theorem redirect_of_eq {replacement : Literal} {gate : Nat} {edge : Literal}
    (same : edge.node = gate) :
    redirect replacement gate edge = replacement.xor edge.inverted :=
  if_pos same

variable {graph replaced : Graph} {replacement : Literal} {gate : Nat} {old : Node}

/-- In a linked graph the consumers of a gate are the nodes that it lists, so
every active node is rewired where it reads the gate. -/
theorem Linked.kind_replaceInNode (linked : graph.Linked)
    (replaceable : graph.Replaceable replacement gate old) {id : Nat} {node : Node}
    (found : graph.node? id = some node) :
    (replaceInNode replacement gate old.fanouts id node).kind =
      if node.active then node.kind.mapFanins (redirect replacement gate) else node.kind := by
  have listed : old.fanouts.any (·.node = id) = true ↔
      node.active = true ∧ ∃ edge ∈ node.kind.fanins, edge.node = gate := by
    simp only [List.any_eq_true, decide_eq_true_eq]
    constructor
    · rintro ⟨fanout, member, rfl⟩
      have edge := (linked.mem_fanouts_iff replaceable.found replaceable.active).mp member
      rw [isActive_of_node? found, fanins_of_node? found] at edge
      exact ⟨edge.1, _, edge.2, rfl⟩
    · rintro ⟨active, edge, member, rfl⟩
      refine ⟨⟨id, edge.inverted⟩, ?_, rfl⟩
      apply (linked.mem_fanouts_iff replaceable.found replaceable.active).mpr
      rw [isActive_of_node? found, fanins_of_node? found]
      exact ⟨active, member⟩
  simp only [replaceInNode]
  cases active : node.active with
  | false =>
      have unlisted : ¬old.fanouts.any (·.node = id) = true := by
        intro holds
        rw [(listed.mp holds).1] at active
        cases active
      rw [if_neg unlisted]
      rfl
  | true =>
      by_cases reads : ∃ edge ∈ node.kind.fanins, edge.node = gate
      · rw [if_pos (listed.mpr ⟨active, reads⟩), if_pos rfl]
      · rw [if_neg fun holds => reads (listed.mp holds).2, if_pos rfl]
        exact (Kind.mapFanins_eq_self fun edge member =>
          redirect_of_ne fun same => reads ⟨edge, member, same⟩).symm

theorem Linked.nodeFrame_replaceInNode (linked : graph.Linked)
    (replaceable : graph.Replaceable replacement gate old) {id : Nat} {node : Node}
    (found : graph.node? id = some node) :
    NodeFrame node (replaceInNode replacement gate old.fanouts id node) where
  kind := by
    rw [linked.kind_replaceInNode replaceable found]
    split
    · exact ⟨_, rfl⟩
    · exact ⟨_, (Kind.mapFanins_id _).symm⟩
  label := rfl
  active holds := (Bool.and_eq_true_iff.mp holds).1
  kept noGate := by
    have different : id ≠ gate := by
      intro same
      subst same
      rw [replaceable.found] at found
      cases found
      rw [replaceable.isGate] at noGate
      cases noGate
    simp [replaceInNode, different]
  frozen inactive := by
    rw [linked.kind_replaceInNode replaceable found, inactive]
    rfl

theorem Linked.frame_replace (linked : graph.Linked)
    (success : graph.replace replacement gate = .ok replaced) : graph.Frame replaced := by
  rcases replace_eq_ok_iff.mp success with ⟨old, replaceable, rfl⟩
  exact Frame.mapNodes fun id node found => linked.nodeFrame_replaceInNode replaceable found

/-! ## The graph -/

theorem isActive_replace (success : graph.replace replacement gate = .ok replaced) (id : Nat) :
    replaced.isActive id = (graph.isActive id && id ≠ gate) := by
  rcases replace_eq_ok_iff.mp success with ⟨old, -, rfl⟩
  cases found : graph.node? id with
  | none => simp [isActive, found]
  | some node => simp [isActive, found, replaceInNode]

theorem Linked.fanins_replace (linked : graph.Linked)
    (success : graph.replace replacement gate = .ok replaced) (id : Nat) :
    replaced.fanins id =
      if graph.isActive id then (graph.fanins id).map (redirect replacement gate)
      else graph.fanins id := by
  rcases replace_eq_ok_iff.mp success with ⟨old, replaceable, rfl⟩
  cases found : graph.node? id with
  | none => simp [Graph.fanins, found]
  | some node =>
      rw [isActive_of_node? found, fanins_of_node? found,
        fanins_of_node? (by rw [node?_mapNodes, found, Option.map_some]),
        linked.kind_replaceInNode replaceable found]
      split
      · exact Kind.fanins_mapFanins _ _
      · rfl

theorem Linked.kind_replace_of_not_reads (linked : graph.Linked)
    (success : graph.replace replacement gate = .ok replaced) {id : Nat}
    (aloof : ¬graph.Reads id gate) :
    (replaced.node? id).map Node.kind = (graph.node? id).map Node.kind := by
  rcases replace_eq_ok_iff.mp success with ⟨old, replaceable, rfl⟩
  cases found : graph.node? id with
  | none => rw [node?_mapNodes, found]; rfl
  | some node =>
      rw [node?_mapNodes, found, Option.map_some, Option.map_some, Option.map_some,
        linked.kind_replaceInNode replaceable found]
      split
      · congr 1
        apply Kind.mapFanins_eq_self
        intro edge member
        apply redirect_of_ne
        intro same
        exact aloof ⟨edge, by rwa [fanins_of_node? found], same⟩
      · rfl

theorem Linked.reads_replace_iff (linked : graph.Linked)
    (success : graph.replace replacement gate = .ok replaced) {consumer : Nat}
    (active : graph.isActive consumer = true) (driver : Nat) :
    replaced.Reads consumer driver ↔
      (graph.Reads consumer driver ∧ driver ≠ gate) ∨
        (graph.Reads consumer gate ∧ driver = replacement.node) := by
  simp only [Reads, linked.fanins_replace success, active, if_true, List.mem_map]
  constructor
  · rintro ⟨_, ⟨edge, member, rfl⟩, rfl⟩
    by_cases same : edge.node = gate
    · rw [redirect_of_eq same]
      exact .inr ⟨⟨edge, member, same⟩, rfl⟩
    · rw [redirect_of_ne same]
      exact .inl ⟨⟨edge, member, rfl⟩, same⟩
  · rintro (⟨⟨edge, member, rfl⟩, different⟩ | ⟨⟨edge, member, same⟩, rfl⟩)
    · exact ⟨edge, ⟨edge, member, redirect_of_ne different⟩, rfl⟩
    · exact ⟨_, ⟨edge, member, redirect_of_eq same⟩, rfl⟩

/-- A rank of the graph, raised for all that sees the gate, ranks the graph in which
the gate is replaced: the replacement is not raised. -/
theorem Linked.acyclic_replace (linked : graph.Linked)
    (success : graph.replace replacement gate = .ok replaced)
    (unseen : ¬graph.Sees replacement.node gate) : replaced.Acyclic := by
  classical
  rcases linked.acyclic with ⟨rank, decreases⟩
  -- what sees the gate is raised above the replacement, which does not see it
  refine ⟨fun id => if graph.Sees id gate then rank id + (rank replacement.node + 1)
    else rank id, ?_⟩
  intro consumer driver active reads
  have before : graph.isActive consumer = true := by
    rw [isActive_replace success, Bool.and_eq_true] at active
    exact active.1
  rcases (linked.reads_replace_iff success before driver).mp reads with
    ⟨kept, -⟩ | ⟨moved, equal⟩
  · have lower := decreases consumer driver before kept
    by_cases sees : graph.Sees driver gate
    · have above : graph.Sees consumer gate := .head ⟨before, kept⟩ sees
      simp only [sees, above, if_true]
      omega
    · simp only [sees, if_false]
      split
      · omega
      · exact lower
  · have above : graph.Sees consumer gate := .single ⟨before, moved⟩
    subst equal
    simp only [unseen, above, if_false, if_true]
    omega

private theorem count_map_redirect (different : replacement.node ≠ gate) {driver : Nat}
    (kept : driver ≠ gate) (flag : Bool) (edges : List Literal) :
    (edges.map (redirect replacement gate)).count ⟨driver, flag⟩ =
      edges.count ⟨driver, flag⟩ +
        if driver = replacement.node then edges.count ⟨gate, flag != replacement.inverted⟩
        else 0 := by
  induction edges with
  | nil => simp
  | cons edge edges induction =>
      rw [List.map_cons, List.count_cons, List.count_cons, List.count_cons, induction]
      rcases edge with ⟨node, inverted⟩
      rcases replacement with ⟨target, flip⟩
      simp only at different ⊢
      by_cases same : node = gate
      · subst same
        have redirected : redirect ⟨target, flip⟩ node ⟨node, inverted⟩ =
            ⟨target, flip != inverted⟩ := redirect_of_eq rfl
        rw [redirected]
        by_cases equal : driver = target
        · subst equal
          cases inverted <;> cases flip <;> cases flag <;>
            simp [Ne.symm kept, Nat.add_assoc]
        · simp [Ne.symm kept, equal, Ne.symm equal]
      · have redirected : redirect ⟨target, flip⟩ gate ⟨node, inverted⟩ = ⟨node, inverted⟩ :=
          redirect_of_ne same
        rw [redirected]
        simp [same, Nat.add_right_comm]

private theorem edgeCount_replace (linked : graph.Linked)
    (success : graph.replace replacement gate = .ok replaced)
    (different : replacement.node ≠ gate) {driver : Nat} (kept : driver ≠ gate)
    (fanout : Literal) :
    replaced.edgeCount driver fanout =
      if fanout.node = gate then 0
      else graph.edgeCount driver fanout +
        if driver = replacement.node then
          graph.edgeCount gate (fanout.xor replacement.inverted)
        else 0 := by
  simp only [edgeCount, isActive_replace success, linked.fanins_replace success,
    Literal.node_xor, Literal.inverted_xor]
  by_cases same : fanout.node = gate
  · simp [same]
  · by_cases active : graph.isActive fanout.node = true
    · simp [same, active, count_map_redirect different kept]
    · simp [same, active]

private theorem count_fanouts_replaceInNode (linked : graph.Linked)
    (replaceable : graph.Replaceable replacement gate old) {id : Nat} {node : Node}
    (found : graph.node? id = some node) (active : node.active = true) (kept : id ≠ gate)
    (fanout : Literal) :
    (replaceInNode replacement gate old.fanouts id node).fanouts.count fanout =
      (if fanout.node = gate then 0 else graph.edgeCount id fanout) +
        if id = replacement.node then graph.edgeCount gate (fanout.xor replacement.inverted)
        else 0 := by
  have others : (node.fanouts.filter (·.node ≠ gate)).count fanout =
      if fanout.node = gate then 0 else graph.edgeCount id fanout := by
    split
    · rename_i same
      rw [List.count_eq_zero]
      intro member
      simpa [same] using List.of_mem_filter member
    · rename_i different
      rw [List.count_filter (by simpa using different), linked.count_fanouts found active]
  have moved : (old.fanouts.map (·.xor replacement.inverted)).count fanout =
      graph.edgeCount gate (fanout.xor replacement.inverted) := by
    conv => lhs; rw [← Literal.xor_xor fanout replacement.inverted]
    rw [List.count_map_of_injective _ _ (Literal.xor_injective _),
      linked.count_fanouts replaceable.found replaceable.active]
  simp only [replaceInNode, kept, if_false]
  split
  · rw [List.count_append, others, moved]
  · rw [others, Nat.add_zero]

theorem Linked.edgeCount_self (linked : graph.Linked) {id : Nat} {fanout : Literal}
    (same : fanout.node = id) : graph.edgeCount id fanout = 0 := by
  rw [edgeCount, same]
  split
  · rename_i active
    rw [List.count_eq_zero]
    intro member
    exact linked.acyclic.not_transGen id (.single ⟨active, reads_of_mem member⟩)
  · rfl

theorem Linked.count_fanouts_replace (linked : graph.Linked)
    (success : graph.replace replacement gate = .ok replaced) {id : Nat} {node : Node}
    (found : replaced.node? id = some node) (active : node.active = true) (fanout : Literal) :
    node.fanouts.count fanout = replaced.edgeCount id fanout := by
  have idActive : replaced.isActive id = true := (isActive_of_node? found).trans active
  rw [isActive_replace success, Bool.and_eq_true, decide_eq_true_eq] at idActive
  rcases (linked.frame_replace success).source found with ⟨before, earlier, nodeFrame⟩
  rcases replace_eq_ok_iff.mp success with ⟨old, replaceable, rfl⟩
  rw [edgeCount_replace linked success replaceable.different idActive.2]
  rw [node?_mapNodes, earlier, Option.map_some, Option.some.injEq] at found
  rw [← found, count_fanouts_replaceInNode linked replaceable earlier
    (nodeFrame.active active) idActive.2]
  by_cases same : fanout.node = gate
  · have none : graph.edgeCount gate (fanout.xor replacement.inverted) = 0 :=
      linked.edgeCount_self same
    simp [same, none]
  · simp [same]

theorem Linked.linked_replace (linked : graph.Linked)
    (success : graph.replace replacement gate = .ok replaced)
    (unseen : ¬graph.Sees replacement.node gate) : replaced.Linked := by
  have frame := linked.frame_replace success
  apply frame.linked linked
  · intro consumer driver active reads
    apply frame.readable
    rw [isActive_replace success, Bool.and_eq_true] at active
    rcases (linked.reads_replace_iff success active.1 driver).mp reads with
      ⟨kept, -⟩ | ⟨-, equal⟩
    · exact linked.readable consumer driver active.1 kept
    · rcases replace_eq_ok_iff.mp success with ⟨old, replaceable, -⟩
      exact equal ▸ replaceable.readable_target
  · intro id node found active fanout
    exact linked.count_fanouts_replace success found active fanout
  · exact linked.acyclic_replace success unseen

theorem WellFormed.isActive_of_reads_replace (wellFormed : graph.WellFormed)
    (success : graph.replace replacement gate = .ok replaced) {consumer driver : Nat}
    (active : replaced.isActive consumer = true) (reads : replaced.Reads consumer driver) :
    replaced.isActive driver = true := by
  rw [isActive_replace success, Bool.and_eq_true] at active ⊢
  rw [decide_eq_true_eq]
  rcases (wellFormed.reads_replace_iff success active.1 driver).mp reads with
    ⟨kept, different⟩ | ⟨-, equal⟩
  · exact ⟨wellFormed.isActive_driver _ _ active.1 kept, different⟩
  · rcases replace_eq_ok_iff.mp success with ⟨old, replaceable, -⟩
    rw [equal]
    exact ⟨replaceable.isActive_target, replaceable.different⟩

theorem WellFormed.wellFormed_replace (wellFormed : graph.WellFormed)
    (success : graph.replace replacement gate = .ok replaced)
    (unseen : ¬graph.Sees replacement.node gate) : replaced.WellFormed where
  toLinked := wellFormed.linked_replace success unseen
  isActive_driver _ _ := wellFormed.isActive_of_reads_replace success

/-! ## Functions -/

theorem WellFormed.preserves_replace (wellFormed : graph.WellFormed)
    (success : graph.replace replacement gate = .ok replaced)
    (unseen : ¬graph.Sees replacement.node gate)
    (equal : graph.SameSignal (.plain gate) replacement) : graph.Preserves replaced := by
  apply wellFormed.preserves_of_rewired (wellFormed.frame_replace success)
    (wellFormed.wellFormed_replace success unseen)
  intro id node found active
  rcases replace_eq_ok_iff.mp success with ⟨old, replaceable, rfl⟩
  rw [isActive_replace success, Bool.and_eq_true, isActive_of_node? found] at active
  refine ⟨redirect replacement gate, _, by rw [node?_mapNodes, found, Option.map_some], ?_, ?_⟩
  · rw [wellFormed.kind_replaceInNode replaceable found, if_pos active.1]
  · intro edge _ assignment value carries
    by_cases same : edge.node = gate
    · rw [redirect_of_eq same, carries_xor_iff, ← equal]
      subst same
      rcases edge with ⟨driver, inverted⟩
      cases inverted <;> simpa [Carries, Literal.plain] using carries
    · rwa [redirect_of_ne same]

end AndInverter.Graph
