import AndInverter.Proofs.Simulation.Inputs
import AndInverter.Proofs.Simulation.Session

namespace AndInverter

/-! What a session reports. It sweeps the graph first and uses one set of words for all its
batches; still each line of its log shows what the outputs of the graph take on one pattern,
and the signatures that it leaves belong to the last batch alone. -/

variable {Source : Type} [Stimulus Source]

/-! ## Lines -/

def Batch.patterns (batch : Batch) : List (Batch × Nat) :=
  (List.range batch.length).map fun lane => (batch, lane)

def digits (values : List Bool) : String :=
  String.ofList (values.map fun value => if value then '1' else '0')

namespace Graph

variable {graph : Graph}

/-- A line shows a pattern: its bits in the order of the inputs, a space, and the values that
the outputs take under these bits. -/
def Logs (graph : Graph) (pattern : Batch × Nat) (line : String) : Prop :=
  ∃ values,
    List.Forall₂ (graph.Takes (pattern.1.assignment graph.inputs pattern.2)) graph.outputs values ∧
      line = digits ((List.range graph.inputs.length).map fun input =>
        pattern.1.bit input pattern.2) ++ " " ++ digits values

theorem Preserves.logs {after : Graph} (preserves : graph.Preserves after)
    (active : ∀ output ∈ after.outputs, after.isActive output = true) {pattern : Batch × Nat}
    {line : String} (logs : after.Logs pattern line) : graph.Logs pattern line := by
  rcases logs with ⟨values, takes, rfl⟩
  rw [preserves.frame.inputs, preserves.frame.outputs] at takes
  rw [preserves.frame.outputs] at active
  refine ⟨values, ?_, by rw [preserves.frame.inputs]⟩
  apply List.forall₂_iff_zip.mpr
  rcases List.forall₂_iff_zip.mp takes with ⟨length, each⟩
  refine ⟨length, ?_⟩
  intro output value member
  exact (preserves.functions output (active output (List.of_mem_zip member).1) _ value).mpr
    (each member)

/-- A batch with a word for each input, and with no more lanes than words have. -/
structure Fits (graph : Graph) (batch : Batch) : Prop where
  words : batch.words.length = graph.inputs.length
  length : batch.length ≤ Word.width

theorem Evaluable.map_inputs_simulate (evaluable : graph.Evaluable)
    (declares : graph.DeclaresInputs) {batch : Batch} {words : Words}
    (size : words.size = graph.size) (undriven : graph.Undriven batch words) {lane : Nat}
    (inside : lane < 32) :
    (graph.inputs.map fun id =>
      ((graph.simulate graph.order batch words).ofNode id).lane lane) =
        (List.range graph.inputs.length).map fun input => batch.bit input lane := by
  apply List.ext_getElem
  · simp
  · intro position positionInside _
    rw [List.length_map] at positionInside
    rw [List.getElem_map, List.getElem_map, List.getElem_range]
    have member := List.getElem_mem positionInside
    rcases (declares.mem_iff _).mp member with ⟨node, found, kind⟩
    have takes := evaluable.takes_simulate_input declares size undriven member inside
    rw [(takes_input_iff found kind).mp takes]
    exact Batch.assignment_of_getElem? declares.nodup (List.getElem?_eq_getElem positionInside)
      batch lane

theorem Evaluable.logs_logLines (evaluable : graph.Evaluable) (declares : graph.DeclaresInputs)
    {batch : Batch} (fits : graph.Fits batch) {words : Words} (size : words.size = graph.size) :
    List.Forall₂ graph.Logs batch.patterns
      (graph.logLines batch (graph.simulate graph.order batch words)) := by
  have undriven := graph.undriven_of_full (Nat.le_of_eq fits.words.symm) words
  rw [Batch.patterns, logLines, List.forall₂_map_left_iff, List.forall₂_map_right_iff,
    List.forall₂_same]
  intro lane member
  have inside : lane < 32 := Nat.lt_of_lt_of_le (List.mem_range.mp member) fits.length
  refine ⟨graph.outputs.map fun id =>
    ((graph.simulate graph.order batch words).ofNode id).lane lane, ?_, ?_⟩
  · rw [List.forall₂_map_right_iff, List.forall₂_same]
    intro output outputMember
    exact evaluable.takes_simulate declares size undriven
      (mem_order_of_mem_outputs outputMember (evaluable.outputs_active output outputMember)) inside
  · rw [← evaluable.map_inputs_simulate declares size undriven inside, Words.digits, Words.digits,
      digits, digits, List.map_map, List.map_map]
    rfl

end Graph

/-! ## Batches -/

theorem Feed.next_of_nil {inputs : Nat} {source : Source} {failure? : Option Error}
    (delivered : Feed.ofStimulus inputs source = ⟨[], failure?⟩) :
    ∃ after, Stimulus.next inputs source =
      (match failure? with
        | none => .ok none
        | some failure => .error failure, after) := by
  rw [Feed.ofStimulus_eq] at delivered
  rcases asked : Stimulus.next inputs source with ⟨answer, after⟩
  rw [asked] at delivered
  rcases answer with failure | batch?
  · cases delivered
    exact ⟨after, rfl⟩
  · cases batch? with
    | none =>
        cases delivered
        exact ⟨after, rfl⟩
    | some batch => cases delivered

theorem Feed.next_of_cons {inputs : Nat} {source : Source} {batch : Batch} {others : List Batch}
    {failure? : Option Error}
    (delivered : Feed.ofStimulus inputs source = ⟨batch :: others, failure?⟩) :
    ∃ after, Stimulus.next inputs source = (.ok (some batch), after) ∧
      Feed.ofStimulus inputs after = ⟨others, failure?⟩ := by
  rw [Feed.ofStimulus_eq] at delivered
  rcases asked : Stimulus.next inputs source with ⟨answer, after⟩
  rw [asked] at delivered
  rcases answer with failure | batch?
  · cases delivered
  · cases batch? with
    | none => cases delivered
    | some first =>
        simp only [Feed.mk.injEq, List.cons.injEq] at delivered
        rcases delivered with ⟨⟨rfl, batches⟩, failure⟩
        refine ⟨after, rfl, ?_⟩
        rw [← batches, ← failure]

theorem ListedSource.feed_eq (inputs : Nat) (batches : List Batch) (failure : Option Error) :
    Feed.ofStimulus inputs (ListedSource.mk batches failure) = ⟨batches, failure⟩ := by
  induction batches with
  | nil =>
      rw [Feed.ofStimulus_eq]
      cases failure <;> rfl
  | cons batch others induction =>
      rw [Feed.ofStimulus_eq]
      simp only [Stimulus.next, ListedSource.next, induction]

namespace Graph

variable {graph : Graph}

def wordsAfter (graph : Graph) (batches : List Batch) (words : Words) : Words :=
  batches.foldl (fun words batch => graph.simulate graph.order batch words) words

theorem Evaluable.size_wordsAfter (evaluable : graph.Evaluable) (batches : List Batch)
    {words : Words} (size : words.size = graph.size) :
    (graph.wordsAfter batches words).size = graph.size := by
  induction batches generalizing words with
  | nil => exact size
  | cons batch others induction => exact induction (evaluable.settled_simulate batch size).size

/-- By induction on the batches: every batch is simulated over words of the right size, and
what they are does not show in the lines. -/
theorem Evaluable.simulateAll_delivered (evaluable : graph.Evaluable)
    (declares : graph.DeclaresInputs) {batches : List Batch}
    (fits : ∀ batch ∈ batches, graph.Fits batch) {source : Source}
    (delivered : Feed.ofStimulus graph.inputs.length source = ⟨batches, none⟩) {words : Words}
    (size : words.size = graph.size) (number : Nat) (partition : Partition) :
    let simulated := graph.simulateAll graph.order number .unlimited partition words source
    List.Forall₂ graph.Logs (batches.flatMap Batch.patterns) simulated.log ∧
      simulated.patterns = (batches.map Batch.length).sum ∧
        simulated.words = graph.wordsAfter batches words := by
  induction batches generalizing source words number partition with
  | nil =>
      rcases Feed.next_of_nil delivered with ⟨after, asked⟩
      rw [simulateAll_eq, asked]
      exact ⟨.nil, rfl, rfl⟩
  | cons batch others induction =>
      rcases Feed.next_of_cons delivered with ⟨after, asked, later⟩
      have rest := induction (fun other member => fits other (.tail batch member)) later
        (evaluable.settled_simulate batch size).size (number + 1)
        (partition.refine (graph.simulate graph.order batch words))
      have lines := evaluable.logs_logLines declares (fits batch List.mem_cons_self) size
      rw [simulateAll_eq, asked]
      exact ⟨List.rel_append lines rest.1, congrArg (batch.length + ·) rest.2.1, rest.2.2⟩

theorem Evaluable.takes_wordsAfter (evaluable : graph.Evaluable)
    (declares : graph.DeclaresInputs) {batches : List Batch} {last : Batch}
    (isLast : last ∈ batches.getLast?) (fits : graph.Fits last) {words : Words}
    (size : words.size = graph.size) {id : Nat}
    (concerned : id ∈ graph.inputs ∨ id ∈ graph.order) {lane : Nat} (inside : lane < 32) :
    graph.Takes (last.assignment graph.inputs lane) id
      (((graph.wordsAfter batches words).ofNode id).lane lane) := by
  rcases List.getLast?_eq_some_iff.mp isLast with ⟨earlier, rfl⟩
  have before := evaluable.size_wordsAfter earlier size
  have undriven := graph.undriven_of_full (Nat.le_of_eq fits.words.symm)
    (graph.wordsAfter earlier words)
  rw [wordsAfter, List.foldl_append, ← wordsAfter]
  rcases concerned with input | seen
  · exact evaluable.takes_simulate_input declares before undriven input inside
  · exact evaluable.takes_simulate declares before undriven seen inside

end Graph

/-! ## Sessions -/

namespace Session

variable {graph : Graph}

theorem signature?_run {source : Source} {log : PatternLog}
    (finished : (simulated graph source log).failure = none) {id : Nat}
    (active : graph.sweep.isActive id = true)
    (concerned : id ∈ graph.sweep.inputs ∨ id ∈ graph.sweep.order) :
    (run graph source log).graph.signature? id =
      some ((simulated graph source log).words.ofNode id) := by
  rcases Graph.isActive_eq_true_iff.mp active with ⟨node, found, -⟩
  rw [(run_of_finished finished).2.2.1, recorded, Partition.signature?_recordIn,
    Graph.signature?_recordSignatures, if_pos (List.mem_append.mpr concerned.symm), found]
  rfl

/-- A session whose log takes every line, on a source that delivers some batches and then
ends, ends well. It counts the batches and their patterns, its log has a line for each pattern
that shows what the outputs of the graph take, and every input and every node that the outputs
see is signed with the values that it takes in the lanes of the last batch. -/
theorem run_reports (wellFormed : graph.WellFormed) {batches : List Batch}
    (fits : ∀ batch ∈ batches, graph.Fits batch) {source : Source}
    (delivered : Feed.ofStimulus graph.inputs.length source = ⟨batches, none⟩) :
    let session := run graph source .unlimited
    (∃ classes, session.result = .ok ⟨(batches.map Batch.length).sum, batches.length, classes⟩) ∧
      List.Forall₂ graph.Logs (batches.flatMap Batch.patterns) session.log ∧
        ∀ last ∈ batches.getLast?, ∀ id, id ∈ graph.inputs ∨ graph.Observed id →
          ∃ word, session.graph.signature? id = some word ∧ ∀ lane < 32,
            graph.Takes (last.assignment graph.inputs lane) id (word.lane lane) := by
  intro session
  have swept := wellFormed.sweep
  have evaluable := swept.evaluable
  have declares := swept.declaresInputs
  have preserves := wellFormed.preserves_sweep
  have size : (Words.zeros graph.sweep.size).size = graph.sweep.size := Array.size_replicate
  have sweptFits : ∀ batch ∈ batches, graph.sweep.Fits batch :=
    fun batch member => ⟨(fits batch member).words, (fits batch member).length⟩
  have counted : (simulated graph source .unlimited).batches =
        (Feed.ofStimulus graph.inputs.length source).batches.length ∧
      (simulated graph source .unlimited).failure =
        (Feed.ofStimulus graph.inputs.length source).failure :=
    Graph.simulateAll_feed (.inr rfl) ..
  rw [delivered] at counted
  rcases evaluable.simulateAll_delivered declares sweptFits delivered size 1
    (.initial graph.sweep) with ⟨lines, patterns, words⟩
  refine ⟨?_, ?_, ?_⟩
  · have result := result_of_finished wellFormed counted.2
    rw [show (simulated graph source .unlimited).patterns = _ from patterns, counted.1] at result
    exact ⟨_, result⟩
  · rw [show session.log = _ from (run_of_finished counted.2).1]
    exact lines.imp fun _ _ => preserves.logs swept.outputs_active
  · intro last isLast id concerned
    have member : last ∈ batches := List.mem_of_getLast? isLast
    have sweptConcerned : id ∈ graph.sweep.inputs ∨ id ∈ graph.sweep.order :=
      concerned.imp_right wellFormed.mem_order_sweep_of_observed
    have active : graph.sweep.isActive id = true := by
      rcases sweptConcerned with input | seen
      · exact swept.inputs_active id input
      · exact (Graph.mem_order_iff.mp seen).1
    refine ⟨_, signature?_run counted.2 active sweptConcerned, ?_⟩
    intro lane inside
    apply (preserves.functions id active _ _).mpr
    rw [show (simulated graph source .unlimited).words = _ from words]
    exact evaluable.takes_wordsAfter declares isLast (sweptFits last member) size sweptConcerned
      inside

/-- Four patterns and then one. The first output is always high, the second one is the
conjunction of the inputs; the gate that both of them see is signed by the last pattern, which
makes it low. -/
theorem run_reports_twins :
    let last := Batch.ofWords [0b0#32, 0b1#32] 1
    let source : ListedSource := ⟨[.ofWords [0b0011#32, 0b0101#32] 4, last], none⟩
    let session := run Graph.twins source .unlimited
    (∃ classes, session.result = .ok ⟨5, 2, classes⟩) ∧
      session.log = ["11 11", "10 10", "01 10", "00 10", "01 10"] ∧
        ∃ word, session.graph.signature? 3 = some word ∧ word.lane 0 = false := by
  intro last source session
  have wellFormed := Graph.consistent_twins.toWellFormed
  have fits : ∀ batch ∈ source.batches, Graph.twins.Fits batch := by
    intro batch member
    simp only [source, List.mem_cons, List.not_mem_nil, or_false] at member
    rcases member with rfl | rfl
    · exact ⟨rfl, by decide⟩
    · exact ⟨rfl, by decide⟩
  rcases run_reports wellFormed fits (ListedSource.feed_eq _ _ _) with ⟨result, -, signed⟩
  have observed : Graph.twins.Observed 3 :=
    ⟨7, by decide, .single ⟨rfl, .plain 3, by decide, rfl⟩⟩
  rcases signed last rfl 3 (.inr observed) with ⟨word, found, takes⟩
  have low : Graph.twins.Takes (last.assignment [1, 2] 0) 3 false :=
    .gate (show Graph.twins.node? 3 = some _ from rfl) rfl
      (.input (show Graph.twins.node? 1 = some _ from rfl) rfl)
      (.input (show Graph.twins.node? 2 = some _ from rfl) rfl)
  exact ⟨result, by decide +kernel, word, found, (takes 0 (by decide)).unique low⟩

end Session

end AndInverter
