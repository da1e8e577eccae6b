import AndInverter.Proofs.Partition.Functions
import AndInverter.Proofs.Simulation.Enumeration
import AndInverter.Proofs.Simulation.Inputs

namespace AndInverter

/-! Exhaustive sessions. Up to five inputs have at most thirty-two assignments, so one batch
shows them all, and the classes of the session are those of the functions. The idle lanes of
the batch repeat its first pattern; they tell nothing new, and nothing wrong. -/

/-! ## The batch -/

namespace ExhaustiveSource

variable {inputs : Nat}

def batch (inputs : Nat) : Batch :=
  .ofWords ((List.range inputs).map (word 0)) (2 ^ inputs)

theorem two_pow_le_width (few : inputs ≤ 5) : 2 ^ inputs ≤ Word.width :=
  Nat.pow_le_pow_right (show 0 < 2 from by decide) few

theorem batchAt_zero (few : inputs ≤ 5) : batchAt inputs 0 = batch inputs := by
  rw [batchAt, batch, Nat.mul_zero, Nat.sub_zero, Nat.min_eq_left (two_pow_le_width few)]

theorem batchCount_of_few (few : inputs ≤ 5) : batchCount inputs = 1 :=
  Nat.max_eq_left (Nat.div_le_of_le_mul (two_pow_le_width few))

theorem next_ofInputs (few : inputs ≤ 5) :
    Stimulus.next inputs (ofInputs inputs) =
      (.ok (some (batch inputs)), (⟨2 ^ inputs, 2 ^ inputs⟩ : ExhaustiveSource)) := by
  have end_of_source : stateAt inputs 1 = ⟨2 ^ inputs, 2 ^ inputs⟩ := by
    rw [stateAt, Nat.mul_one, Nat.min_eq_right (two_pow_le_width few)]
  have step := next_stateAt inputs 0
  rw [answerAt, batchCount_of_few few, if_pos Nat.zero_lt_one, batchAt_zero few,
    end_of_source] at step
  rw [ofInputs_eq_stateAt (Nat.le_trans few (by decide))]
  exact step

theorem next_of_end (inputs total : Nat) :
    Stimulus.next inputs (⟨total, total⟩ : ExhaustiveSource) =
      (.ok none, (⟨total, total⟩ : ExhaustiveSource)) := by
  change next inputs _ = _
  rw [next, if_pos (Nat.le_refl total)]

@[simp] theorem length_words_batch (inputs : Nat) : (batch inputs).words.length = inputs := by
  simp [batch, Batch.ofWords]

theorem bit_batch (few : inputs ≤ 5) {input lane : Nat} (inputInside : input < inputs)
    (inside : lane < 2 ^ inputs) : (batch inputs).bit input lane = lane.testBit input := by
  have length : (batchAt inputs 0).length = 2 ^ inputs := by
    rw [length_batchAt (by rw [batchCount_of_few few]; exact Nat.zero_lt_one),
      Nat.min_eq_left (two_pow_le_width few)]
  rw [← batchAt_zero few, bit_batchAt inputInside, length, decide_eq_true inside, Nat.mul_zero,
    Nat.zero_add, Bool.true_and]

theorem exists_lane (inputs : List Nat) (few : inputs.length ≤ 5) (assignment : Assignment) :
    ∃ lane < 32, ∀ input ∈ inputs,
      (batch inputs.length).assignment inputs lane input = assignment input := by
  let number := Nat.ofBits fun position : Fin inputs.length => assignment inputs[position]
  have inside : number < 2 ^ inputs.length := Nat.ofBits_lt_two_pow _
  refine ⟨number, Nat.lt_of_lt_of_le inside (two_pow_le_width few), ?_⟩
  intro input member
  have position := List.idxOf_lt_length_of_mem member
  rw [Batch.assignment, bit_batch few position inside, Nat.testBit_ofBits_lt _ _ position]
  exact congrArg assignment (List.getElem_idxOf position)

end ExhaustiveSource

theorem Words.Ready.exhausts_simulate {graph : Graph} {words : Words} (ready : words.Ready graph)
    (wellFormed : graph.WellFormed) (live : graph.Live) (few : graph.inputs.length ≤ 5) :
    (graph.simulate graph.order (ExhaustiveSource.batch graph.inputs.length) words).Exhausts
      graph := by
  intro assignment
  rcases ExhaustiveSource.exists_lane graph.inputs few assignment with ⟨lane, inside, same⟩
  have declares := wellFormed.declaresInputs
  have undriven := Graph.undriven_of_full
    (Nat.le_of_eq (ExhaustiveSource.length_words_batch graph.inputs.length).symm) words
  refine ⟨lane, inside, fun id candidate => ?_⟩
  have takes := ready.takes_simulate wellFormed live
    (ExhaustiveSource.batch graph.inputs.length) candidate inside
  apply declares.takes_congr _ takes
  intro input member
  exact (declares.assignment_drive ready.size undriven lane member).trans (same input member)

/-! ## Sessions -/

theorem Partition.Uniform.annotate {partition : Partition} {graph after : Graph}
    (uniform : partition.Uniform graph) (annotates : graph.Annotates after) :
    partition.Uniform after := by
  intro members member left leftInside right rightInside
  rw [annotates.sameSignal_iff]
  exact uniform members member left leftInside right rightInside

namespace Session

variable {graph : Graph}

theorem partition_run {Source : Type} [Stimulus Source] (graph : Graph) (source : Source)
    (log : PatternLog) :
    (run graph source log).partition = (simulated graph source log).partition ∨
      (run graph source log).partition = (simulated graph source log).partition.sorted := by
  cases finished : (simulated graph source log).failure with
  | some failure =>
      left
      rw [run, ← simulated, finished]
  | none => exact .inr (run_of_finished finished).2.1

def exhaustiveWords (graph : Graph) : Words :=
  graph.sweep.simulate graph.sweep.order (ExhaustiveSource.batch graph.sweep.inputs.length)
    (.zeros graph.sweep.size)

theorem show_exhaustiveWords (wellFormed : graph.WellFormed) :
    (exhaustiveWords graph).Show graph.sweep :=
  (Words.ready_zeros graph.sweep).show_simulate wellFormed.sweep graph.live_sweep _

theorem exhausts_exhaustiveWords (few : graph.inputs.length ≤ 5) (wellFormed : graph.WellFormed) :
    (exhaustiveWords graph).Exhausts graph.sweep :=
  (Words.ready_zeros graph.sweep).exhausts_simulate wellFormed.sweep graph.live_sweep few

theorem partition_simulated (few : graph.inputs.length ≤ 5) (log : PatternLog) :
    (simulated graph (ExhaustiveSource.ofInputs graph.inputs.length) log).partition =
      (Partition.initial graph.sweep).refine (exhaustiveWords graph) := by
  rw [simulated, Graph.simulateAll_eq, show graph.sweep.inputs = graph.inputs from rfl,
    ExhaustiveSource.next_ofInputs few]
  simp only
  rcases log.write _ with ⟨lines, log?⟩
  cases log? with
  | none => rfl
  | some next =>
      simp only
      rw [Graph.simulateAll_eq, ExhaustiveSource.next_of_end]
      rfl

variable {options : SimulationOptions} (few : graph.inputs.length ≤ 5)
  (exhaustive : graph.inputs.length ≤ options.exhaustiveInputs)

include few exhaustive

theorem partition_madeUp (log : PatternLog) :
    let refined := (Partition.initial graph.sweep).refine (exhaustiveWords graph)
    (madeUp graph options log).partition = refined ∨
      (madeUp graph options log).partition = refined.sorted := by
  have classes := partition_run graph (ExhaustiveSource.ofInputs graph.inputs.length) log
  rw [partition_simulated few] at classes
  rwa [madeUp, if_pos exhaustive]

theorem exists_report_madeUp (wellFormed : graph.WellFormed) {log : PatternLog}
    (unlimited : log = .absent ∨ log = .unlimited) :
    ∃ report, (madeUp graph options log).result = .ok report ∧ report.batches = 1 := by
  have counts := ExhaustiveSource.madeUp_counts (Nat.le_trans few (by decide)) exhaustive log
  have room : log.HasRoom (2 ^ graph.inputs.length) := by
    rcases unlimited with rfl | rfl <;> trivial
  rcases counts.2 wellFormed room with ⟨report, success⟩
  exact ⟨report, success,
    (counts.1 report success).2.trans (ExhaustiveSource.batchCount_of_few few)⟩

theorem byFunction_madeUp (wellFormed : graph.WellFormed) (log : PatternLog) :
    (madeUp graph options log).partition.ByFunction graph := by
  have refined := Partition.byFunction_refine wellFormed (show_exhaustiveWords wellFormed)
    (exhausts_exhaustiveWords few wellFormed)
  rcases partition_madeUp few exhaustive log with unsorted | sorted
  · rwa [unsorted]
  · rw [sorted]
    exact refined.sorted

/-- As the session leaves them, they cover its graph exactly and hold nothing that differs. -/
theorem uniform_madeUp (wellFormed : graph.WellFormed) (log : PatternLog) :
    let session := madeUp graph options log
    session.partition.Covers session.graph ∧ session.partition.Exact session.graph ∧
      session.partition.Uniform session.graph := by
  intro session
  have swept := wellFormed.sweep
  have initial := Partition.covers_initial swept
  have covers := initial.refine (show_exhaustiveWords wellFormed)
  have exact := initial.exact_refine (show_exhaustiveWords wellFormed)
  have uniform := (Partition.proper_initial swept.isGate_constant).uniform_refine
    (exhausts_exhaustiveWords few wellFormed)
  have conducted : Conducted graph session := .madeUp options log
  have annotates := conducted.annotates
  rcases partition_madeUp few exhaustive log with unsorted | sorted
  · rw [show session.partition = _ from unsorted]
    exact ⟨covers.annotate annotates, exact.annotate annotates, uniform.annotate annotates⟩
  · rw [show session.partition = _ from sorted]
    exact ⟨covers.sorted.annotate annotates, exact.sorted.annotate annotates,
      uniform.sorted.annotate annotates⟩

end Session

end AndInverter
