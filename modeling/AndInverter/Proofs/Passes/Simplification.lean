import AndInverter.Passes.Simplification
import AndInverter.Proofs.Passes.Pass

namespace AndInverter

/-! Simplification is sound: what a trivial gate is merged into is the constant or one
of its own fanins, neither of which sees the gate. -/

theorem trivialGate?_cases {left right survivor : Literal}
    (trivial : trivialGate? left right = some survivor) :
    (left = .high ∧ survivor = right) ∨ (right = .high ∧ survivor = left) ∨
      ((left = .low ∨ right = .low ∨ right = left.not) ∧ survivor = .low) ∨
        (left = right ∧ survivor = left) := by
  rw [trivialGate?] at trivial
  split at trivial
  · rename_i high
    exact .inl ⟨high, (Option.some.inj trivial).symm⟩
  · split at trivial
    · rename_i high
      exact .inr (.inl ⟨high, (Option.some.inj trivial).symm⟩)
    · split at trivial
      · rename_i low
        simp only [Bool.or_eq_true, decide_eq_true_eq] at low
        refine .inr (.inr (.inl ⟨?_, (Option.some.inj trivial).symm⟩))
        rcases low with leftLow | rightLow
        · exact .inl leftLow
        · exact .inr (.inl rightLow)
      · split at trivial
        · rename_i same
          exact .inr (.inr (.inr ⟨same, (Option.some.inj trivial).symm⟩))
        · split at trivial
          · rename_i opposite
            have equal := (Literal.isOpposite_iff left right).mp opposite
            exact .inr (.inr (.inl ⟨.inr (.inr equal), (Option.some.inj trivial).symm⟩))
          · cases trivial

namespace Pass

variable {Memory : Type} {pass : Pass Memory} {memory after : Memory} {graph : Graph} {id : Nat}

theorem gate_of_judgeNode {survivor : Literal}
    (judged : pass.judgeNode memory id graph = (some survivor, after)) :
    ∃ node left right, graph.node? id = some node ∧ node.kind = .gate left right ∧
      pass.judge memory id left right = (some survivor, after) := by
  rw [judgeNode] at judged
  split at judged
  · rename_i left right found
    rcases Option.map_eq_some_iff.mp found with ⟨node, nodeFound, kind⟩
    exact ⟨node, left, right, nodeFound, kind, judged⟩
  · cases judged

end Pass

namespace Graph

variable {graph : Graph}

theorem carries_not_iff {assignment : Assignment} {literal : Literal} {value : Bool} :
    graph.Carries assignment literal.not value ↔ graph.Carries assignment literal (!value) := by
  rw [← Literal.xor_true, carries_xor_iff, Bool.bne_true]

theorem WellFormed.carries_high_iff (wellFormed : graph.WellFormed) {assignment : Assignment}
    {value : Bool} : graph.Carries assignment .high value ↔ value = true := by
  have high : Literal.high = Literal.low.not := rfl
  rw [high, carries_not_iff, wellFormed.carries_low_iff]
  cases value <;> simp

theorem Linked.eq_of_sees_constant (linked : graph.Linked) {id : Nat}
    (sees : graph.Sees 0 id) : id = 0 := by
  rcases Relation.ReflTransGen.cases_head sees with equal | ⟨next, edge, -⟩
  · exact equal.symm
  · exact absurd edge.2 linked.not_reads_constant

theorem Linked.not_sees_of_reads (linked : graph.Linked) {consumer driver : Nat}
    (active : graph.isActive consumer = true) (reads : graph.Reads consumer driver) :
    ¬graph.Sees driver consumer :=
  fun sees => linked.acyclic.not_transGen consumer (.head' ⟨active, reads⟩ sees)

theorem WellFormed.sameSignal_trivialGate? (wellFormed : graph.WellFormed) {id : Nat}
    {node : Node} {left right survivor : Literal} (found : graph.node? id = some node)
    (kind : node.kind = .gate left right) (active : graph.isActive id = true)
    (trivial : trivialGate? left right = some survivor) :
    graph.SameSignal (.plain id) survivor := by
  apply wellFormed.sameSignal_of_imp active
  intro assignment value carries
  rw [carries_plain_iff, takes_gate_iff found kind] at carries
  rcases carries with ⟨leftValue, rightValue, leftCarries, rightCarries, rfl⟩
  rcases trivialGate?_cases trivial with
    ⟨rfl, rfl⟩ | ⟨rfl, rfl⟩ | ⟨contradictory, rfl⟩ | ⟨rfl, rfl⟩
  · rwa [wellFormed.carries_high_iff.mp leftCarries, Bool.true_and]
  · rwa [wellFormed.carries_high_iff.mp rightCarries, Bool.and_true]
  · rw [wellFormed.carries_low_iff]
    rcases contradictory with rfl | rfl | rfl
    · rw [wellFormed.carries_low_iff.mp leftCarries, Bool.false_and]
    · rw [wellFormed.carries_low_iff.mp rightCarries, Bool.and_false]
    · rw [leftCarries.unique (carries_not_iff.mp rightCarries), Bool.not_and_self]
  · rwa [leftCarries.unique rightCarries, Bool.and_self]

theorem Linked.not_sees_trivialGate? (linked : graph.Linked) {id : Nat}
    {node : Node} {left right survivor : Literal} (found : graph.node? id = some node)
    (kind : node.kind = .gate left right) (active : graph.isActive id = true)
    (trivial : trivialGate? left right = some survivor) : ¬graph.Sees survivor.node id := by
  have fanins : graph.fanins id = [left, right] := by rw [fanins_of_node? found, kind]; rfl
  have leftUnseen : ¬graph.Sees left.node id :=
    linked.not_sees_of_reads active ⟨left, by simp [fanins], rfl⟩
  have rightUnseen : ¬graph.Sees right.node id :=
    linked.not_sees_of_reads active ⟨right, by simp [fanins], rfl⟩
  rcases trivialGate?_cases trivial with ⟨-, rfl⟩ | ⟨-, rfl⟩ | ⟨-, rfl⟩ | ⟨-, rfl⟩
  · exact rightUnseen
  · exact leftUnseen
  · intro sees
    have isGate : graph.isGate id = true := by rw [isGate_of_node? found, kind]; rfl
    rw [linked.eq_of_sees_constant sees, linked.isGate_constant] at isGate
    cases isGate
  · exact leftUnseen

end Graph

theorem simplification_sound : simplification.Sound fun _ _ => True where
  initial _ := trivial
  skip _ _ := trivial
  merge := by
    intro memory after graph replaced id survivor linked _ judged success
    rcases Pass.gate_of_judgeNode judged with ⟨node, left, right, found, kind, verdict⟩
    rcases Graph.replace_eq_ok_iff.mp success with ⟨old, replaceable, -⟩
    have active : graph.isActive id = true :=
      (Graph.isActive_of_node? replaceable.found).trans replaceable.active
    have merged : trivialGate? left right = some survivor := congrArg Prod.fst verdict
    exact ⟨linked.not_sees_trivialGate? found kind active merged,
      fun wellFormed => wellFormed.sameSignal_trivialGate? found kind active merged, trivial⟩

end AndInverter
