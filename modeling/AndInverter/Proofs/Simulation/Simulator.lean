import AndInverter.Proofs.Arising
import AndInverter.Proofs.Graph.Integrity
import AndInverter.Proofs.Simulation.Inputs
import AndInverter.Simulation.Simulator

namespace AndInverter

/-! The simulator on graphs that pass the integrity check. Such a graph need not be
well-formed: nodes that were marked as removed may still be listed, and what no output sees
may run in circles. But every word that is looked up is there, and is final by then. -/

/-! ## Look-ups that succeed -/

namespace Words

variable {words : Words} {id : Nat}

theorem word_eq_ok (inside : id < words.size) : words.word id = .ok (words.ofNode id) := by
  rw [word, ofNode, Array.getElem?_eq_getElem inside]
  rfl

theorem literalWord_eq_ok {literal : Literal} (inside : literal.node < words.size) :
    words.literalWord literal = .ok (words.ofLiteral literal) := by
  rw [literalWord, word_eq_ok inside]
  rfl

theorem write_eq_ok (inside : id < words.size) (word : Word) :
    words.write id word = .ok (words.set id word) :=
  if_pos inside

end Words

theorem Result.foldlM_eq_ok {α β : Type} {step : α → β → Result α} {plain : α → β → α}
    (Holds : α → Prop) {values : List β}
    (each : ∀ state, Holds state → ∀ value ∈ values,
      step state value = .ok (plain state value) ∧ Holds (plain state value))
    {state : α} (holds : Holds state) :
    values.foldlM step state = .ok (values.foldl plain state) := by
  induction values generalizing state with
  | nil => rfl
  | cons head tail induction =>
      rcases each state holds head List.mem_cons_self with ⟨success, later⟩
      rw [List.foldlM_cons, success, List.foldl_cons]
      exact induction (fun other otherHolds value member =>
        each other otherHolds value (.tail head member)) later

namespace Simulator

variable {graph : Graph}

theorem drive_eq_ok {words : Words} (room : ∀ input ∈ graph.inputs, input < words.size)
    (batch : Batch) : drive graph batch words = .ok (graph.drive batch words) := by
  apply Result.foldlM_eq_ok (fun state => state.size = words.size) _ rfl
  rintro state size ⟨input, word⟩ member
  refine ⟨Words.write_eq_ok ?_ word, (Words.size_set input word state).trans size⟩
  rw [size]
  exact room input (List.of_mem_zip member).1

theorem settle_eq_ok {words : Words} {id : Nat} {node : Node} (found : graph.node? id = some node)
    (inside : id < words.size) (fanins : ∀ edge ∈ node.kind.fanins, edge.node < words.size) :
    settle graph words id = .ok (graph.settle words id) := by
  rw [settle, Graph.node_eq_ok_iff.mpr found, Graph.settle, found, Option.bind_some]
  cases kind : node.kind with
  | constant =>
      simp only [bind, Except.bind, kind, Graph.settled?]
      exact Words.write_eq_ok inside _
  | input => simp [bind, Except.bind, kind, Graph.settled?, pure, Except.pure]
  | gate left right =>
      rw [kind] at fanins
      simp only [bind, Except.bind, kind, Graph.settled?,
        Words.literalWord_eq_ok (fanins left (by simp [Kind.fanins])),
        Words.literalWord_eq_ok (fanins right (by simp [Kind.fanins]))]
      exact Words.write_eq_ok inside _
  | output driver =>
      rw [kind] at fanins
      simp only [bind, Except.bind, kind, Graph.settled?,
        Words.literalWord_eq_ok (fanins driver (by simp [Kind.fanins]))]
      exact Words.write_eq_ok inside _

theorem simulate_eq_ok (evaluable : graph.Evaluable) (declares : graph.DeclaresInputs)
    (batch : Batch) {simulator : Simulator} (size : simulator.words.size = graph.size)
    (order : simulator.order = graph.order) :
    simulator.simulate graph batch =
      .ok ⟨graph.simulate graph.order batch simulator.words, graph.order⟩ := by
  have room : ∀ input ∈ graph.inputs, input < simulator.words.size := by
    intro input member
    rw [size]
    exact declares.lt_size member
  have settled : graph.order.foldlM (settle graph) (graph.drive batch simulator.words) =
      .ok (graph.simulate graph.order batch simulator.words) := by
    apply Result.foldlM_eq_ok fun words => words.size = graph.size
    · intro words wordsSize id member
      have active := (Graph.mem_order_iff.mp member).1
      rcases Graph.isActive_eq_true_iff.mp active with ⟨node, found, -⟩
      have fanins : ∀ edge ∈ node.kind.fanins, edge.node < words.size := by
        intro edge inside
        have reads : graph.Reads id edge.node :=
          Graph.reads_of_mem (by rwa [Graph.fanins_of_node? found])
        rw [wordsSize]
        exact Graph.lt_size_of_isActive (evaluable.isActive_driver id edge.node active reads)
      exact ⟨settle_eq_ok found (wordsSize ▸ Graph.lt_size_of_node? found) fanins,
        (Graph.size_settle words id).trans wordsSize⟩
    · exact (Graph.size_drive batch simulator.words).trans size
  rw [simulate, drive_eq_ok room, order]
  simp only [bind, Except.bind, settled]
  rfl

theorem evaluate_eq_ok (evaluable : graph.Evaluable) (declares : graph.DeclaresInputs)
    (batch : Batch) (simulator : Simulator) :
    simulator.evaluate graph batch =
      .ok (graph.outputWords (graph.evaluate batch), ⟨graph.evaluate batch, graph.order⟩) := by
  have size : (Words.zeros graph.size).size = graph.size := Array.size_replicate
  have simulated : (simulator.prepare graph).simulate graph batch =
      .ok ⟨graph.evaluate batch, graph.order⟩ :=
    simulate_eq_ok evaluable declares batch size rfl
  have outputs : graph.outputs.mapM (graph.evaluate batch).word =
      .ok (graph.outputWords (graph.evaluate batch)) := by
    apply Result.mapM_eq_ok
    intro output member
    have settled := evaluable.settled_simulate batch size
    apply Words.word_eq_ok
    rw [Graph.evaluate, settled.size]
    exact Graph.lt_size_of_isActive (evaluable.outputs_active output member)
  rw [evaluate, simulated]
  simp only [bind, Except.bind, outputs]
  rfl

end Simulator

namespace Graph

variable {graph : Graph}

theorem evaluable_of_checkIntegrity
    (active : ∀ output ∈ graph.outputs, graph.isActive output = true)
    (checked : graph.checkIntegrity = .ok ()) : graph.Evaluable := by
  rcases checkIntegrity_eq_ok_iff.mp checked with ⟨-, nodes, -, order, sorted⟩
  refine ⟨active, ?_, acyclicBelow_of_topologicalSort sorted⟩
  intro consumer driver consumerActive reads
  have member := mem_ids.mpr (isDefined_of_isActive consumerActive)
  exact isActive_of_checkNode (nodes consumer member) consumerActive reads

end Graph

/-- Whatever was done to a graph, with or without care: if it passes the integrity check and
its outputs are active, then every batch is evaluated without failure, whatever the simulator
did before. Each output has a word, in their order, and in every lane the word has the value
that the output takes when the inputs are given their bits. -/
theorem Simulator.evaluate_computes {graph : Graph} (arises : graph.Arises)
    (active : ∀ output ∈ graph.outputs, graph.isActive output = true)
    (checked : graph.checkIntegrity = .ok ()) (batch : Batch) (simulator : Simulator) :
    ∃ words after, simulator.evaluate graph batch = .ok (words, after) ∧
      List.Forall₂ (fun output word => ∀ lane < 32,
        graph.Takes (batch.assignment graph.inputs lane) output (word.lane lane))
        graph.outputs words := by
  have evaluable := Graph.evaluable_of_checkIntegrity active checked
  have declares := arises.declaresInputs
  refine ⟨_, _, evaluate_eq_ok evaluable declares batch simulator, ?_⟩
  rw [Graph.outputWords, List.forall₂_map_right_iff, List.forall₂_same]
  intro output member lane inside
  exact evaluable.takes_simulate declares Array.size_replicate
    (graph.undriven_zeros batch graph.size)
    (Graph.mem_order_of_mem_outputs member (active output member)) inside

/-- A graph that was treated without care: a gate that no output sees reads itself, since what
it read was replaced by it, and an input that nothing reads is marked as removed. -/
def Graph.mistreated : Graph :=
  let built := [.addInput, .addInput, .addInput, .addGate (.plain 1) (.plain 2),
    .addGate (.plain 4) (.plain 1), .addGate (.plain 1) ⟨2, true⟩, .addOutput ⟨6, true⟩,
    .replace (.plain 5) 4].foldl Operation.apply empty
  Operation.settle built (built.deactivate 3)

theorem Graph.arises_mistreated : Graph.mistreated.Arises :=
  .deactivate 3 (.step (.replace (.plain 5) 4) (.step (.addOutput ⟨6, true⟩)
    (.step (.addGate (.plain 1) ⟨2, true⟩) (.step (.addGate (.plain 4) (.plain 1))
      (.step (.addGate (.plain 1) (.plain 2)) (.step .addInput (.step .addInput
        (.step .addInput .new))))))))

/-- The batch has one word too many for the three inputs, and three lanes that are meant. Its
other lanes are evaluated all the same. -/
theorem Simulator.evaluate_computes_mistreated :
    let batch := Batch.ofWords [0b1100#32, 0b1010#32, 0b0001#32, 0b0111#32] 3
    let stale : Simulator := ⟨#[7#32], [9, 4]⟩
    Graph.mistreated.Arises ∧ Graph.mistreated.fanins 5 = [.plain 5, .plain 1] ∧
      Graph.mistreated.isActive 3 = false ∧ Graph.mistreated.checkIntegrity = .ok () ∧
        (∃ after, stale.evaluate Graph.mistreated batch = .ok ([0xFFFFFFFB#32], after)) ∧
          Graph.mistreated.Takes (batch.assignment [1, 2, 3] 2) 7 false := by
  intro batch stale
  have checked : Graph.mistreated.checkIntegrity = .ok () := by decide +kernel
  have active : ∀ output ∈ Graph.mistreated.outputs,
      Graph.mistreated.isActive output = true := by decide +kernel
  rcases Simulator.evaluate_computes Graph.arises_mistreated active checked batch stale with
    ⟨words, after, success, values⟩
  have computed : (stale.evaluate Graph.mistreated batch).map Prod.fst = .ok [0xFFFFFFFB#32] := by
    decide +kernel
  have words_eq : words = [0xFFFFFFFB#32] := by
    rw [success] at computed
    exact Except.ok.inj computed
  subst words_eq
  have outputs : Graph.mistreated.outputs = [7] := by decide +kernel
  have inputs : Graph.mistreated.inputs = [1, 2, 3] := by decide +kernel
  rw [outputs, inputs] at values
  refine ⟨Graph.arises_mistreated, by decide +kernel, by decide +kernel, checked,
    ⟨after, success⟩, ?_⟩
  exact (List.forall₂_cons.mp values).1 2 (by decide)

end AndInverter
