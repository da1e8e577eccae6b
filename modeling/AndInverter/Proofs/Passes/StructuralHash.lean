import AndInverter.Passes.StructuralHash
import AndInverter.Proofs.Passes.Simplification

namespace AndInverter

/-! Structural hashing is sound: a gate is merged into one that reads the same two
literals. The table may hold a gate that has gone since, or one whose fanins have gone; what
has gone is not read by any active node, so a merge never relies on such an entry. -/

namespace Graph

/-- A node that has gone: it is inactive, and no active node reads it. -/
def Gone (graph : Graph) (id : Nat) : Prop :=
  graph.isActive id = false ∧
    ∀ consumer, graph.isActive consumer = true → ¬graph.Reads consumer id

theorem not_gone_of_reads {graph : Graph} {consumer driver : Nat}
    (active : graph.isActive consumer = true) (reads : graph.Reads consumer driver) :
    ¬graph.Gone driver :=
  fun gone => gone.2 consumer active reads

section Replaced

variable {graph replaced : Graph} {replacement : Literal} {gate : Nat}

theorem Linked.gone_of_replace (linked : graph.Linked)
    (success : graph.replace replacement gate = .ok replaced) : replaced.Gone gate := by
  refine ⟨by simp [isActive_replace success], fun consumer active reads => ?_⟩
  rw [isActive_replace success, Bool.and_eq_true] at active
  rcases (linked.reads_replace_iff success active.1 gate).mp reads with
    ⟨-, different⟩ | ⟨-, equal⟩
  · exact different rfl
  · rcases replace_eq_ok_iff.mp success with ⟨old, replaceable, -⟩
    exact replaceable.different equal.symm

theorem Linked.gone_replace (linked : graph.Linked)
    (success : graph.replace replacement gate = .ok replaced) {id : Nat} (gone : graph.Gone id) :
    replaced.Gone id := by
  refine ⟨by simp [isActive_replace success, gone.1], fun consumer active reads => ?_⟩
  rw [isActive_replace success, Bool.and_eq_true] at active
  rcases (linked.reads_replace_iff success active.1 id).mp reads with ⟨kept, -⟩ | ⟨-, equal⟩
  · exact gone.2 consumer active.1 kept
  · rcases replace_eq_ok_iff.mp success with ⟨old, replaceable, -⟩
    have inactive := gone.1
    rw [equal, replaceable.isActive_target] at inactive
    cases inactive

end Replaced

end Graph

namespace GateTable

theorem getElem?_insert (table : GateTable) (key other : Nat × Nat) (gate : Nat) :
    (table.insert key gate)[other]? = if key = other then some gate else table[other]? := by
  rw [Std.TreeMap.getElem?_insert]
  simp only [Std.LawfulEqCmp.compare_eq_iff_eq]

/-- A kept gate that is active still reads the literals of its key, as long as neither has
gone. -/
def Remembers (table : GateTable) (graph : Graph) : Prop :=
  ∀ left right first, table[gateKey left right]? = some first →
    graph.isActive first = true → ¬graph.Gone left.node → ¬graph.Gone right.node →
      ∃ node firstLeft firstRight, graph.node? first = some node ∧
        node.kind = .gate firstLeft firstRight ∧
        gateKey firstLeft firstRight = gateKey left right

theorem Remembers.insert {table : GateTable} {graph : Graph} (remembers : table.Remembers graph)
    {id : Nat} {node : Node} {left right : Literal} (found : graph.node? id = some node)
    (kind : node.kind = .gate left right) :
    Remembers (table.insert (gateKey left right) id) graph := by
  intro otherLeft otherRight first entry
  rw [getElem?_insert] at entry
  split at entry
  · rename_i same
    cases entry
    intro _ _ _
    exact ⟨node, left, right, found, kind, same⟩
  · exact remembers otherLeft otherRight first entry

/-- A replacement rewires a kept gate only where the gate that it replaces was read, and
this one has gone from then on. -/
theorem Remembers.replace {table : GateTable} {graph replaced : Graph}
    (remembers : table.Remembers graph) (linked : graph.Linked) {replacement : Literal}
    {gate : Nat} (success : graph.replace replacement gate = .ok replaced) :
    table.Remembers replaced := by
  intro left right first entry firstActive leftKept rightKept
  have frame := linked.frame_replace success
  rcases remembers left right first entry (frame.isActive firstActive)
    (fun gone => leftKept (linked.gone_replace success gone))
    (fun gone => rightKept (linked.gone_replace success gone)) with
    ⟨node, firstLeft, firstRight, found, kind, sameKey⟩
  have kept : ∀ edge : Literal, ¬replaced.Gone edge.node →
      Graph.redirect replacement gate edge = edge := by
    intro edge stays
    apply Graph.redirect_of_ne
    intro same
    exact stays (same ▸ linked.gone_of_replace success)
  have fixed : node.kind.mapFanins (Graph.redirect replacement gate) = node.kind := by
    apply Kind.mapFanins_eq_self
    intro edge member
    apply kept
    rw [kind] at member
    rcases gateKey_eq_iff.mp sameKey with ⟨rfl, rfl⟩ | ⟨rfl, rfl⟩ <;>
      rcases List.mem_pair.mp member with rfl | rfl <;> assumption
  rcases Graph.replace_eq_ok_iff.mp success with ⟨old, replaceable, rfl⟩
  refine ⟨_, firstLeft, firstRight, by rw [Graph.node?_mapNodes, found, Option.map_some], ?_,
    sameKey⟩
  rw [linked.kind_replaceInNode replaceable found]
  split
  · rw [fixed, kind]
  · exact kind

end GateTable

namespace Graph

variable {graph : Graph} {first second : Nat} {firstNode secondNode : Node}
  {left right otherLeft otherRight : Literal}

theorem WellFormed.sameSignal_of_gateKey (wellFormed : graph.WellFormed)
    (found : graph.node? first = some firstNode) (kind : firstNode.kind = .gate left right)
    (otherFound : graph.node? second = some secondNode)
    (otherKind : secondNode.kind = .gate otherLeft otherRight)
    (sameKey : gateKey left right = gateKey otherLeft otherRight)
    (active : graph.isActive first = true) :
    graph.SameSignal (.plain first) (.plain second) := by
  apply wellFormed.sameSignal_of_imp active
  intro assignment value carries
  rw [carries_plain_iff, takes_gate_iff found kind] at carries
  rcases carries with ⟨leftValue, rightValue, leftCarries, rightCarries, rfl⟩
  rw [carries_plain_iff, takes_gate_iff otherFound otherKind]
  rcases gateKey_eq_iff.mp sameKey with ⟨rfl, rfl⟩ | ⟨rfl, rfl⟩
  · exact ⟨leftValue, rightValue, leftCarries, rightCarries, rfl⟩
  · exact ⟨rightValue, leftValue, rightCarries, leftCarries, Bool.and_comm ..⟩

theorem Linked.not_sees_of_gateKey (linked : graph.Linked)
    (found : graph.node? first = some firstNode) (kind : firstNode.kind = .gate left right)
    (otherFound : graph.node? second = some secondNode)
    (otherKind : secondNode.kind = .gate otherLeft otherRight)
    (sameKey : gateKey left right = gateKey otherLeft otherRight)
    (active : graph.isActive second = true) (different : first ≠ second) :
    ¬graph.Sees first second := by
  intro sees
  rcases Relation.ReflTransGen.cases_head sees with equal | ⟨next, edge, below⟩
  · exact different equal
  · rcases edge.2 with ⟨fanin, member, rfl⟩
    rw [fanins_of_node? found, kind] at member
    have shared : graph.Reads second fanin.node := by
      refine ⟨fanin, ?_, rfl⟩
      rw [fanins_of_node? otherFound, otherKind]
      rcases gateKey_eq_iff.mp sameKey with ⟨rfl, rfl⟩ | ⟨rfl, rfl⟩
      · exact member
      · exact List.mem_pair.mpr (List.mem_pair.mp member).symm
    exact linked.not_sees_of_reads active shared below

end Graph

theorem structuralHash_sound : structuralHash.Sound GateTable.Remembers where
  initial graph := by
    intro left right first entry
    simp [structuralHash] at entry
  skip := by
    intro table after graph id remembers judged
    rw [Pass.judgeNode] at judged
    split at judged
    · rename_i left right found
      rcases Option.map_eq_some_iff.mp found with ⟨node, nodeFound, kind⟩
      simp only [structuralHash] at judged
      split at judged
      · cases judged
      · rw [Prod.mk.injEq] at judged
        rw [← judged.2]
        exact remembers.insert nodeFound kind
    · rw [Prod.mk.injEq] at judged
      exact judged.2 ▸ remembers
  merge := by
    intro table after graph replaced id survivor linked remembers judged success
    rcases Pass.gate_of_judgeNode judged with ⟨node, left, right, found, kind, verdict⟩
    simp only [structuralHash] at verdict
    split at verdict
    · rename_i first entry
      rw [Prod.mk.injEq, Option.some.injEq] at verdict
      rcases verdict with ⟨rfl, rfl⟩
      rcases Graph.replace_eq_ok_iff.mp success with ⟨old, replaceable, -⟩
      have active : graph.isActive id = true := replaceable.isActive_gate
      have firstActive : graph.isActive first = true := replaceable.isActive_target
      have fanins : graph.fanins id = [left, right] := by
        rw [Graph.fanins_of_node? found, kind]
        rfl
      have leftKept : ¬graph.Gone left.node :=
        Graph.not_gone_of_reads active ⟨left, by simp [fanins], rfl⟩
      have rightKept : ¬graph.Gone right.node :=
        Graph.not_gone_of_reads active ⟨right, by simp [fanins], rfl⟩
      rcases remembers left right first entry firstActive leftKept rightKept with
        ⟨firstNode, firstLeft, firstRight, firstFound, firstKind, sameKey⟩
      exact ⟨linked.not_sees_of_gateKey firstFound firstKind found kind sameKey active
          replaceable.different,
        fun wellFormed =>
          wellFormed.sameSignal_of_gateKey found kind firstFound firstKind sameKey.symm active,
        remembers.replace linked success⟩
    · cases verdict

end AndInverter
