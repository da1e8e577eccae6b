import AndInverter.Proofs.Arising

namespace AndInverter

/-! The order of a traversal, output by output. After what earlier outputs see comes the rest
of what the next one sees, and this output last. -/

namespace PostOrder

variable {graph : Graph}

theorem getLast?_toList_of_start {root : Nat} {marks : Marks}
    (active : graph.isActive root = true) (fresh : marks.contains root = false) :
    ((⟨[], marks, [root]⟩ : PostOrder).toList graph).getLast? = some root := by
  have entered : Runs graph ⟨[], marks, [root]⟩ []
      ⟨expansion graph (marks.insert root) root, marks.insert root, []⟩ :=
    .continue rfl (.continue (by simp [move, active, fresh]) (.refl _))
  rcases exists_runs graph ⟨((graph.fanins root).filter fun fanin =>
    !(marks.insert root).contains fanin.node).map fun fanin => Task.enter fanin.node,
      marks.insert root, []⟩ with ⟨⟨_, finalMarks, _⟩, below, rfl, rfl⟩
  have yielded : Runs graph ⟨[.leave root], finalMarks, []⟩ [root] ⟨[], finalMarks, []⟩ :=
    .yield (by simp [move, active]) (.refl _)
  have whole := entered.trans ((below.followedBy [.leave root] [] (.inr rfl)).trans yielded)
  rw [whole.toList_eq_of_over ⟨rfl, rfl⟩]
  simp

/-- What the earlier roots see comes first, then what the next one adds. -/
theorem toList_ofRoots (graph : Graph) (earlier later : List Nat) (root : Nat) :
    ∃ before cone after,
      (ofRoots (earlier ++ root :: later) graph).toList graph = before ++ cone ++ after ∧
      before = (ofRoots earlier graph).toList graph ∧
      before ++ cone = (ofRoots (earlier ++ [root]) graph).toList graph ∧
      (graph.isActive root = true → root ∉ before → cone.getLast? = some root) := by
  rcases exists_runs graph (ofRoots earlier graph) with ⟨⟨_, marks, _⟩, first, rfl, rfl⟩
  rcases exists_runs graph ⟨[], marks, [root]⟩ with ⟨⟨_, finalMarks, _⟩, second, rfl, rfl⟩
  have stands := first.visiting (.ofRoots earlier graph)
  have rooted : ∀ others, (ofRoots earlier graph).followedBy [] (root :: others) =
      ofRoots (earlier ++ root :: others) graph := fun _ => rfl
  have all := (first.followedBy [] (root :: later) (.inl rfl)).trans
    (second.followedBy [] later (.inl rfl))
  have upTo := (first.followedBy [] [root] (.inl rfl)).trans second
  rw [rooted] at all upTo
  refine ⟨_, _, _, all.toList_eq, rfl, ?_, ?_⟩
  · exact (upTo.toList_eq_of_over ⟨rfl, rfl⟩).symm
  · intro active unseen
    apply getLast?_toList_of_start active
    rw [Bool.eq_false_iff, ne_eq, stands.contains_iff_of_over ⟨rfl, rfl⟩]
    simpa using unseen

end PostOrder

namespace Graph

variable {graph : Graph}

def FaninsFirst (graph : Graph) (ids : List Nat) : Prop :=
  ∀ early id late, ids = early ++ id :: late →
    ∀ driver, graph.Reads id driver → graph.isActive driver = true → driver ∈ early

theorem isActive_of_sees {root id : Nat} (sees : graph.Sees root id)
    (active : graph.isActive id = true) : graph.isActive root = true := by
  rcases Relation.ReflTransGen.cases_head sees with rfl | ⟨driver, follows, -⟩
  · exact active
  · exact follows.1

theorem exists_active_sees_iff {roots : List Nat} {id : Nat} (active : graph.isActive id = true) :
    (∃ root ∈ roots, graph.isActive root = true ∧ graph.Sees root id) ↔
      ∃ root ∈ roots, graph.Sees root id := by
  constructor
  · rintro ⟨root, member, -, sees⟩
    exact ⟨root, member, sees⟩
  · rintro ⟨root, member, sees⟩
    exact ⟨root, member, isActive_of_sees sees active, sees⟩

theorem order_eq_append {earlier later : List Nat} {output : Nat}
    (split : graph.outputs = earlier ++ output :: later) :
    ∃ before cone after, graph.order = before ++ cone ++ after ∧
      (∀ id, id ∈ before ↔ graph.isActive id = true ∧ ∃ other ∈ earlier, graph.Sees other id) ∧
      (∀ id, id ∈ cone ↔ graph.isActive id = true ∧ graph.Sees output id ∧ id ∉ before) ∧
      (graph.isActive output = true → output ∉ before → cone.getLast? = some output) := by
  rcases PostOrder.toList_ofRoots graph earlier later output with
    ⟨before, cone, after, whole, first, both, last⟩
  have order : graph.order = before ++ cone ++ after := by
    rw [← whole, ← split]
    rfl
  have inBefore : ∀ id, id ∈ before ↔
      graph.isActive id = true ∧ ∃ other ∈ earlier, graph.Sees other id := by
    intro id
    rw [first]
    exact PostOrder.mem_toList_iff (.ofRoots earlier graph)
  have inBoth : ∀ id, id ∈ before ∨ id ∈ cone ↔
      graph.isActive id = true ∧ ∃ other ∈ earlier ++ [output], graph.Sees other id := by
    intro id
    rw [← List.mem_append, both]
    exact PostOrder.mem_toList_iff (.ofRoots (earlier ++ [output]) graph)
  have nodup : (before ++ cone).Nodup := by
    rw [both]
    exact PostOrder.nodup_toList (.ofRoots (earlier ++ [output]) graph)
  refine ⟨before, cone, after, order, inBefore, ?_, last⟩
  intro id
  constructor
  · intro member
    have unseen : id ∉ before := fun seen => (List.nodup_append.mp nodup).2.2 id seen id member rfl
    rcases (inBoth id).mp (.inr member) with ⟨active, other, otherMember, sees⟩
    refine ⟨active, ?_, unseen⟩
    rcases List.mem_append.mp otherMember with inside | final
    · exact absurd ((inBefore id).mpr ⟨active, other, inside, sees⟩) unseen
    · rwa [← List.mem_singleton.mp final]
  · rintro ⟨active, sees, unseen⟩
    exact ((inBoth id).mpr ⟨active, output, by simp, sees⟩).resolve_left unseen

theorem DeclaresOutputs.eq_of_sees (declares : graph.DeclaresOutputs) {root output : Nat}
    (member : output ∈ graph.outputs) (sees : graph.Sees root output) : root = output := by
  rcases Relation.ReflTransGen.cases_tail sees with equal | ⟨consumer, -, follows⟩
  · exact equal.symm
  · exact absurd follows.2 (declares.not_reads member)

theorem DeclaresOutputs.not_sees_of_split (declares : graph.DeclaresOutputs)
    {earlier later : List Nat} {output : Nat} (split : graph.outputs = earlier ++ output :: later) :
    ∀ other ∈ earlier, ¬graph.Sees other output := by
  intro other member sees
  have declared : output ∈ graph.outputs := by simp [split]
  have nodup := declares.nodup
  rw [split] at nodup
  rw [declares.eq_of_sees declared sees] at member
  exact (List.nodup_append.mp nodup).2.2 output member output List.mem_cons_self rfl

/-- A traversal from the outputs holds the active nodes that active outputs see, each once, be
there cycles or not. Where there are none, a node comes after all the active ones that it
reads. After what the earlier outputs see comes what the next one sees besides, and it comes
last, whatever was done to the graph before. A traversal that begins anew holds the same. And
a traversal from one node holds what this node sees, in the same way. -/
theorem order_exact (graph : Graph) :
    graph.order.Nodup ∧
    (∀ id, id ∈ graph.order ↔ graph.isActive id = true ∧
      ∃ output ∈ graph.outputs, graph.isActive output = true ∧ graph.Sees output id) ∧
    (graph.AcyclicBelow graph.outputs → graph.FaninsFirst graph.order) ∧
    (graph.Arises → ∀ earlier output later, graph.outputs = earlier ++ output :: later →
      ∃ before cone after, graph.order = before ++ cone ++ after ∧
        (∀ id, id ∈ before ↔ graph.isActive id = true ∧
          ∃ other ∈ earlier, graph.isActive other = true ∧ graph.Sees other id) ∧
        (∀ id, id ∈ cone ↔ graph.isActive id = true ∧ graph.Sees output id ∧ id ∉ before) ∧
        (graph.isActive output = true → cone.getLast? = some output)) ∧
    (∀ used : PostOrder, (used.reset graph).toList graph = graph.order) ∧
    ∀ start, (graph.orderBelow start).Nodup ∧
      (∀ id, id ∈ graph.orderBelow start ↔
        graph.isActive id = true ∧ graph.isActive start = true ∧ graph.Sees start id) ∧
      (graph.AcyclicBelow [start] → graph.FaninsFirst (graph.orderBelow start)) := by
  refine ⟨graph.nodup_order, ?_, ?_, ?_, fun _ => rfl, ?_⟩
  · intro id
    rw [mem_order_iff]
    exact and_congr_right fun active => (exists_active_sees_iff active).symm
  · intro acyclic early id late split driver reads active
    exact PostOrder.fanins_first (.ofOutputs graph) acyclic split reads active
  · intro arises earlier output later split
    rcases order_eq_append split with ⟨before, cone, after, whole, inBefore, inCone, last⟩
    refine ⟨before, cone, after, whole, ?_, inCone, fun active => last active ?_⟩
    · intro id
      rw [inBefore]
      exact and_congr_right fun active => (exists_active_sees_iff active).symm
    · intro seen
      rcases (inBefore output).mp seen with ⟨-, other, member, sees⟩
      exact arises.declaresOutputs.not_sees_of_split split other member sees
  · intro start
    refine ⟨PostOrder.nodup_toList (.ofNode start graph), ?_, ?_⟩
    · intro id
      rw [mem_orderBelow_iff]
      exact and_congr_right fun active =>
        ⟨fun sees => ⟨isActive_of_sees sees active, sees⟩, And.right⟩
    · intro acyclic early id late split driver reads active
      exact PostOrder.fanins_first (.ofNode start graph) acyclic split reads active

/-- Two gates that read each other, since what the lower one read was replaced by the upper
one, and an output above each. -/
def entangled : Graph :=
  [.addInput, .addInput, .addGate (.plain 1) (.plain 2), .addGate (.plain 3) (.plain 1),
    .addGate (.plain 4) ⟨2, true⟩, .addOutput (.plain 5), .addOutput ⟨4, true⟩,
    .replace (.plain 5) 3].foldl Operation.apply empty

theorem arises_entangled : entangled.Arises :=
  .step (.replace (.plain 5) 3) (.step (.addOutput ⟨4, true⟩) (.step (.addOutput (.plain 5))
    (.step (.addGate (.plain 4) ⟨2, true⟩) (.step (.addGate (.plain 3) (.plain 1))
      (.step (.addGate (.plain 1) (.plain 2)) (.step .addInput (.step .addInput .new)))))))

theorem order_exact_entangled :
    entangled.fanins 4 = [.plain 5, .plain 1] ∧ entangled.fanins 5 = [.plain 4, ⟨2, true⟩] ∧
      entangled.order = [1, 4, 2, 5, 6, 7] ∧
        ∃ before cone after, entangled.order = before ++ cone ++ after ∧
          (∀ id ∈ cone, entangled.Sees 7 id ∧ id ∉ before) ∧ cone.getLast? = some 7 := by
  rcases order_exact entangled with ⟨-, -, -, blocks, -, -⟩
  rcases blocks arises_entangled [6] 7 [] (by decide +kernel) with
    ⟨before, cone, after, whole, -, inCone, last⟩
  refine ⟨by decide +kernel, by decide +kernel, by decide +kernel, before, cone, after, whole,
    fun id member => ((inCone id).mp member).2, last (by decide +kernel)⟩

end Graph

end AndInverter
