import AndInverter.Proofs.Graph.Sweep
import AndInverter.Proofs.Simulation.Words
import AndInverter.Simulation.Evaluation

namespace AndInverter

/-! What simulated words say. In each of its lanes, a batch shows the values that all nodes
below the outputs take under one assignment: the one that gives every input the bit of the
word that it was driven with. -/

/-! ## Words -/

namespace Words

def assignment (words : Words) (lane : Nat) : Assignment :=
  fun id => (words.ofNode id).lane lane

/-- The word of a node has, lane by lane, what the node takes under the driven words. -/
def Shows (words : Words) (graph : Graph) (driven : Words) (id : Nat) : Prop :=
  ∀ lane < 32, graph.Takes (driven.assignment lane) id ((words.ofNode id).lane lane)

theorem Shows.carries {words driven : Words} {graph : Graph} {literal : Literal}
    (shows : words.Shows graph driven literal.node) {lane : Nat} (inside : lane < 32) :
    graph.Carries (driven.assignment lane) literal ((words.ofLiteral literal).lane lane) := by
  have takes := shows lane inside
  rw [Graph.takes_iff_carries] at takes
  rwa [lane_ofLiteral words literal inside]

end Words

namespace Graph

variable {graph : Graph}

/-! ## One node -/

theorem takes_of_settled {words driven : Words} {id : Nat} {node : Node} {word : Word}
    (found : graph.node? id = some node) (settled : settled? words node.kind = some word)
    (shows : ∀ edge ∈ node.kind.fanins, words.Shows graph driven edge.node) {lane : Nat}
    (inside : lane < 32) : graph.Takes (driven.assignment lane) id (word.lane lane) := by
  cases kind : node.kind with
  | constant =>
      rw [kind] at settled
      cases settled
      rw [takes_constant_iff found kind]
      exact BitVec.getLsbD_zero
  | input =>
      rw [kind] at settled
      cases settled
  | gate left right =>
      rw [kind] at settled shows
      cases settled
      have leftShows := shows left (by simp [Kind.fanins])
      have rightShows := shows right (by simp [Kind.fanins])
      rw [takes_gate_iff found kind]
      exact ⟨_, _, leftShows.carries inside, rightShows.carries inside, Word.lane_and ..⟩
  | output driver =>
      rw [kind] at settled shows
      cases settled
      rw [takes_output_iff found kind]
      exact (shows driver (by simp [Kind.fanins])).carries inside

theorem settled?_eq_none_iff {words : Words} {kind : Kind} :
    settled? words kind = none ↔ kind = .input := by
  cases kind <;> simp [settled?]

@[simp] theorem size_settle (words : Words) (id : Nat) :
    (graph.settle words id).size = words.size := by
  rw [settle]
  split
  · exact Words.size_set ..
  · rfl

theorem ofNode_settle_of_ne {id other : Nat} (different : id ≠ other) (words : Words) :
    (graph.settle words id).ofNode other = words.ofNode other := by
  rw [settle]
  split
  · exact Words.ofNode_set_of_ne different ..
  · rfl

theorem shows_settle {words driven : Words} {id : Nat} {node : Node}
    (found : graph.node? id = some node) (bound : id < words.size)
    (unchanged : words.ofNode id = driven.ofNode id)
    (shows : ∀ edge ∈ node.kind.fanins, words.Shows graph driven edge.node) :
    (graph.settle words id).Shows graph driven id := by
  intro lane inside
  rw [settle, found, Option.bind_some]
  cases given : settled? words node.kind with
  | none =>
      have kind := settled?_eq_none_iff.mp given
      change graph.Takes _ id ((words.ofNode id).lane lane)
      rw [unchanged, takes_input_iff found kind]
      rfl
  | some word =>
      change graph.Takes _ id (((words.set id word).ofNode id).lane lane)
      rw [Words.ofNode_set id word words id bound, if_pos rfl]
      exact takes_of_settled found given shows inside

/-- The words after some nodes are settled: theirs are right, the others are driven. -/
structure Settled (graph : Graph) (driven : Words) (early : List Nat) (words : Words) : Prop where
  size : words.size = graph.size
  shows : ∀ id ∈ early, words.Shows graph driven id
  others : ∀ id, id ∉ early → words.ofNode id = driven.ofNode id

theorem Settled.settle {driven words : Words} {early : List Nat}
    (settled : graph.Settled driven early words) {id : Nat} (fresh : id ∉ early)
    (active : graph.isActive id = true) (fanins : ∀ edge ∈ graph.fanins id, edge.node ∈ early) :
    graph.Settled driven (early ++ [id]) (graph.settle words id) where
  size := (size_settle words id).trans settled.size
  shows other member := by
    rcases List.mem_append.mp member with earlier | last
    · intro lane inside
      have different : id ≠ other := fun equal => fresh (equal ▸ earlier)
      rw [ofNode_settle_of_ne different]
      exact settled.shows other earlier lane inside
    · rcases isActive_eq_true_iff.mp active with ⟨node, found, -⟩
      rw [List.mem_singleton.mp last]
      apply shows_settle found (settled.size ▸ lt_size_of_node? found) (settled.others id fresh)
      intro edge inside
      rw [← fanins_of_node? found] at inside
      exact settled.shows edge.node (fanins edge inside)
  others other missing := by
    rw [List.mem_append, List.mem_singleton, not_or] at missing
    rw [ofNode_settle_of_ne (Ne.symm missing.2)]
    exact settled.others other missing.1

/-! ## One batch -/

/-- What an evaluation needs: every output is active, active nodes read active nodes, and no
node below the outputs depends on itself. Elsewhere there may be cycles. -/
structure Evaluable (graph : Graph) : Prop where
  outputs_active : ∀ output ∈ graph.outputs, graph.isActive output = true
  isActive_driver : ∀ consumer driver, graph.isActive consumer = true →
    graph.Reads consumer driver → graph.isActive driver = true
  acyclic : graph.AcyclicBelow graph.outputs

theorem WellFormed.evaluable (wellFormed : graph.WellFormed) : graph.Evaluable where
  outputs_active := wellFormed.outputs_active
  isActive_driver := wellFormed.isActive_driver
  acyclic := wellFormed.acyclic.below graph.outputs

/-- A sweep over the order: by induction on the nodes that are left, each of which reads
only nodes before it. -/
theorem Evaluable.settled_foldl (evaluable : graph.Evaluable) {driven words : Words}
    {early late : List Nat} (split : graph.order = early ++ late)
    (settled : graph.Settled driven early words) :
    graph.Settled driven graph.order (late.foldl graph.settle words) := by
  induction late generalizing early words with
  | nil =>
      rw [List.append_nil] at split
      rw [split]
      exact settled
  | cons id late induction =>
      have member : id ∈ graph.order := by
        rw [split]
        exact List.mem_append_right _ List.mem_cons_self
      have active := (mem_order_iff.mp member).1
      have fresh : id ∉ early := by
        have nodup := graph.nodup_order
        rw [split, List.nodup_append] at nodup
        exact fun earlier => nodup.2.2 id earlier id List.mem_cons_self rfl
      have fanins : ∀ edge ∈ graph.fanins id, edge.node ∈ early := by
        intro edge inside
        have reads := reads_of_mem inside
        exact PostOrder.fanins_first (.ofOutputs graph) evaluable.acyclic split reads
          (evaluable.isActive_driver id edge.node active reads)
      have rest : graph.order = (early ++ [id]) ++ late := by
        rw [split, List.append_assoc]
        rfl
      exact induction rest (settled.settle fresh active fanins)

@[simp] theorem size_drive (batch : Batch) (words : Words) :
    (graph.drive batch words).size = words.size := by
  rw [drive]
  induction graph.inputs.zip batch.words generalizing words with
  | nil => rfl
  | cons head tail induction => rw [List.foldl_cons, induction, Words.size_set]

theorem ofNode_drive_of_not_mem {id : Nat} (noInput : id ∉ graph.inputs) (batch : Batch)
    (words : Words) : (graph.drive batch words).ofNode id = words.ofNode id :=
  Words.ofNode_foldl_set_of_not_mem noInput batch.words words

theorem Evaluable.settled_simulate (evaluable : graph.Evaluable) (batch : Batch)
    {words : Words} (size : words.size = graph.size) :
    graph.Settled (graph.drive batch words) graph.order
      (graph.simulate graph.order batch words) := by
  have driven : graph.Settled (graph.drive batch words) [] (graph.drive batch words) := {
    size := (size_drive batch words).trans size
    shows := fun _ member => nomatch member
    others := fun _ _ => rfl }
  exact evaluable.settled_foldl rfl driven

end Graph

end AndInverter
