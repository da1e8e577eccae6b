import AndInverter.Proofs.Partition.Signatures
import AndInverter.Proofs.Simulation.Report

namespace AndInverter

/-! Sessions that stop. Where a session stops depends on the feed and on the room of its log
alone. Until then it changes nothing but its classes; what it records in the graph it records
at the end. So a session that fails leaves the swept graph, and the classes that the batches so
far have split. -/

/-! ## Where a session stops -/

namespace PatternLog

def HasRoom (lines : Nat) : PatternLog → Prop
  | .limited room => lines ≤ room
  | _ => True

theorem hasRoom_zero (log : PatternLog) : log.HasRoom 0 := by
  cases log with
  | absent
  | unlimited => trivial
  | limited room => exact Nat.zero_le room

theorem HasRoom.mono {log : PatternLog} {few many : Nat} (room : log.HasRoom many)
    (fewer : few ≤ many) : log.HasRoom few := by
  cases log with
  | absent
  | unlimited => trivial
  | limited capacity => exact Nat.le_trans fewer room

theorem write_of_hasRoom {log : PatternLog} {lines : List String}
    (room : log.HasRoom lines.length) :
    ∃ taken after, log.write lines = (taken, some after) ∧
      ∀ more, after.HasRoom more ↔ log.HasRoom (lines.length + more) := by
  cases log with
  | absent => exact ⟨_, _, rfl, fun _ => Iff.rfl⟩
  | unlimited => exact ⟨_, _, rfl, fun _ => Iff.rfl⟩
  | limited capacity =>
      have fits : lines.length ≤ capacity := room
      refine ⟨_, _, if_pos fits, fun more => ?_⟩
      simp only [HasRoom]
      omega

theorem write_of_not_hasRoom {log : PatternLog} {lines : List String}
    (full : ¬log.HasRoom lines.length) : ∃ taken, log.write lines = (taken, none) := by
  cases log with
  | absent
  | unlimited => exact absurd trivial full
  | limited capacity => exact ⟨_, if_neg full⟩

end PatternLog

namespace Feed

def patterns (batches : List Batch) : Nat :=
  (batches.map Batch.length).sum

@[simp] theorem patterns_cons (batch : Batch) (others : List Batch) :
    patterns (batch :: others) = batch.length + patterns others :=
  List.sum_cons

/-- A session on a feed stops after so many batches: when it asks for one more and there is
none, or when its log has no room for the lines of the last one. -/
inductive StopsAfter (feed : Feed) (log : PatternLog) : Nat → Option Error → Prop
  | asking (room : log.HasRoom (patterns feed.batches)) :
      StopsAfter feed log feed.batches.length feed.failure
  | writing {earlier : Nat} (inside : earlier < feed.batches.length)
      (room : log.HasRoom (patterns (feed.batches.take earlier)))
      (full : ¬log.HasRoom (patterns (feed.batches.take (earlier + 1)))) :
      StopsAfter feed log (earlier + 1) (some (.stream .logFull))

theorem hasRoom_or_full (batches : List Batch) (log : PatternLog) (count : Nat) :
    log.HasRoom (patterns (batches.take count)) ∨
      ∃ earlier < count, log.HasRoom (patterns (batches.take earlier)) ∧
        ¬log.HasRoom (patterns (batches.take (earlier + 1))) := by
  induction count with
  | zero => exact .inl log.hasRoom_zero
  | succ count induction =>
      rcases induction with room | ⟨earlier, inside, room, full⟩
      · by_cases more : log.HasRoom (patterns (batches.take (count + 1)))
        · exact .inl more
        · exact .inr ⟨count, Nat.lt_succ_self count, room, more⟩
      · exact .inr ⟨earlier, Nat.lt_succ_of_lt inside, room, full⟩

theorem exists_stopsAfter (feed : Feed) (log : PatternLog) :
    ∃ stop failure?, feed.StopsAfter log stop failure? := by
  rcases hasRoom_or_full feed.batches log feed.batches.length with
    room | ⟨earlier, inside, room, full⟩
  · rw [List.take_length] at room
    exact ⟨_, _, .asking room⟩
  · exact ⟨_, _, .writing inside room full⟩

theorem StopsAfter.of_cons {batch : Batch} {others : List Batch} {failure? stopped : Option Error}
    {log : PatternLog} {stop : Nat}
    (stops : StopsAfter ⟨batch :: others, failure?⟩ log stop stopped) :
    (¬log.HasRoom batch.length ∧ stop = 1 ∧ stopped = some (.stream .logFull)) ∨
    ∃ later, stop = later + 1 ∧ log.HasRoom batch.length ∧
      ∀ after : PatternLog, (∀ more, after.HasRoom more ↔ log.HasRoom (batch.length + more)) →
        StopsAfter ⟨others, failure?⟩ after later stopped := by
  cases stops with
  | asking room =>
      rw [patterns_cons] at room
      refine .inr ⟨others.length, rfl, room.mono (by omega), fun after left => ?_⟩
      exact .asking ((left _).mpr room)
  | writing inside room full =>
      rename_i earlier
      cases earlier with
      | zero =>
          refine .inl ⟨fun fits => full ?_, rfl, rfl⟩
          simpa [patterns] using fits
      | succ earlier =>
          simp only [List.take_succ_cons, patterns_cons] at room full
          refine .inr ⟨earlier + 1, rfl, room.mono (by omega), fun after left => ?_⟩
          apply StopsAfter.writing
          · exact Nat.lt_of_succ_lt_succ inside
          · exact (left _).mpr room
          · exact fun fits => full ((left _).mp fits)

end Feed

/-! ## The values of batches -/

namespace Graph

variable {graph : Graph}

def valuesOf (graph : Graph) : List Batch → Words → List Words
  | [], _ => []
  | batch :: others, words =>
      graph.simulate graph.order batch words ::
        graph.valuesOf others (graph.simulate graph.order batch words)

def Evaluates (graph : Graph) (batch : Batch) (words : Words) : Prop :=
  graph.Fits batch → ∀ lane < 32, ∀ id, graph.Candidate id →
    graph.Takes (batch.assignment graph.inputs lane) id ((words.ofNode id).lane lane)

theorem WellFormed.evaluates_simulate (wellFormed : graph.WellFormed) (live : graph.Live)
    {words : Words} (ready : words.Ready graph) (batch : Batch) :
    graph.Evaluates batch (graph.simulate graph.order batch words) := by
  intro fits lane inside id candidate
  have undriven := graph.undriven_of_full (Nat.le_of_eq fits.words.symm) words
  have declares := wellFormed.declaresInputs
  apply declares.takes_congr (fun _ => declares.assignment_drive ready.size undriven lane)
  exact ready.takes_simulate wellFormed live batch candidate inside

theorem WellFormed.evaluates_valuesOf (wellFormed : graph.WellFormed) (live : graph.Live)
    (batches : List Batch) {words : Words} (ready : words.Ready graph) :
    List.Forall₂ graph.Evaluates batches (graph.valuesOf batches words) := by
  induction batches generalizing words with
  | nil => exact .nil
  | cons batch others induction =>
      exact .cons (wellFormed.evaluates_simulate live ready batch)
        (induction (ready.simulate wellFormed batch))

/-- A simulation stops where the feed and the log say, with the classes that the batches up to
there have split: by induction on the batches that the source delivers. -/
theorem simulateAll_stopsAfter {Source : Type} [Stimulus Source] {batches : List Batch}
    {failure? stopped : Option Error} {source : Source}
    (delivered : Feed.ofStimulus graph.inputs.length source = ⟨batches, failure?⟩)
    {log : PatternLog} {stop : Nat}
    (stops : Feed.StopsAfter ⟨batches, failure?⟩ log stop stopped) (number : Nat)
    (partition : Partition) (words : Words) :
    let simulated := graph.simulateAll graph.order number log partition words source
    simulated.failure = stopped ∧
      simulated.partition = partition.refineAll (graph.valuesOf (batches.take stop) words) := by
  induction batches generalizing source log stop number partition words with
  | nil =>
      rcases Feed.next_of_nil delivered with ⟨after, asked⟩
      cases stops with
      | asking =>
          rw [simulateAll_eq, asked]
          cases failure? <;> exact ⟨rfl, rfl⟩
      | writing inside => cases inside
  | cons batch others induction =>
      rcases Feed.next_of_cons delivered with ⟨after, asked, later⟩
      rw [simulateAll_eq, asked]
      generalize lines_eq : (if log = .absent then [] else
        graph.logLines batch (graph.simulate graph.order batch words)) = lines
      have room_iff : ∀ more, log.HasRoom (lines.length + more) ↔
          log.HasRoom (batch.length + more) := by
        intro more
        subst lines_eq
        cases log <;> simp [logLines, PatternLog.HasRoom]
      rcases stops.of_cons with ⟨full, rfl, rfl⟩ | ⟨rest, rfl, room, stopsLater⟩
      · have refused : ¬log.HasRoom lines.length := fun fits => full ((room_iff 0).mp fits)
        rcases PatternLog.write_of_not_hasRoom refused with ⟨taken, written⟩
        simp only [lines_eq]
        rw [written]
        exact ⟨rfl, rfl⟩
      · have accepted : log.HasRoom lines.length := (room_iff 0).mpr room
        rcases PatternLog.write_of_hasRoom accepted with ⟨taken, next, written, left⟩
        simp only [lines_eq]
        rw [written]
        exact induction later (stopsLater next fun more => (left more).trans (room_iff more))
          (number + 1) _ _

theorem simulateAll_counts {Source : Type} [Stimulus Source] {batches : List Batch}
    {failure? : Option Error} {source : Source}
    (delivered : Feed.ofStimulus graph.inputs.length source = ⟨batches, failure?⟩)
    (order : List Nat) (number : Nat) (log : PatternLog) (partition : Partition) (words : Words) :
    let simulated := graph.simulateAll order number log partition words source
    simulated.failure = none →
      simulated.patterns = Feed.patterns batches ∧ simulated.batches = batches.length := by
  induction batches generalizing source number log partition words with
  | nil =>
      rcases Feed.next_of_nil delivered with ⟨after, asked⟩
      rw [simulateAll_eq, asked]
      cases failure? <;> exact fun _ => ⟨rfl, rfl⟩
  | cons batch others induction =>
      rcases Feed.next_of_cons delivered with ⟨after, asked, later⟩
      rw [simulateAll_eq, asked]
      simp only
      rcases log.write _ with ⟨lines, log?⟩
      cases log? with
      | none =>
          intro finished
          cases finished
      | some next =>
          intro finished
          have rest := induction later (number + 1) next
            (partition.refine (graph.simulate order batch words))
            (graph.simulate order batch words) finished
          rw [Feed.patterns_cons, List.length_cons, ← rest.1, ← rest.2]
          exact ⟨rfl, rfl⟩

/-- What a sweep does to a graph, and all that it does: the gates that no output sees become
inactive and lose their edges, and the others lose their edges to them. -/
structure SweptTo (before after : Graph) : Prop where
  inputs : after.inputs = before.inputs
  outputs : after.outputs = before.outputs
  dead : ∀ id, id ∈ before.deadGates ↔
    before.isGate id = true ∧ before.isActive id = true ∧ ¬before.Observed id
  node : ∀ id, after.node? id = (before.node? id).map fun node =>
    if id ∈ before.deadGates then { node with active := false, fanouts := [] }
    else { node with fanouts := node.fanouts.filter (·.node ∉ before.deadGates) }

theorem sweptTo_sweep (graph : Graph) : graph.SweptTo graph.sweep where
  inputs := graph.frame_sweep.inputs
  outputs := graph.frame_sweep.outputs
  dead id := by
    rw [mem_deadGates, mem_order_iff]
    constructor
    · intro dead
      exact ⟨dead.1, dead.2.1, fun observed => dead.2.2 ⟨dead.2.1, observed⟩⟩
    · intro dead
      exact ⟨dead.1, dead.2.1, fun seen => dead.2.2 seen.2⟩
  node id := by
    rw [node?_sweep]
    simp only [Node.dropFanouts, decide_not]

end Graph

/-! ## Sessions -/

namespace Session

variable {Source : Type} [Stimulus Source] {graph : Graph}

theorem simulated_stopsAfter {source : Source} {log : PatternLog} {stop : Nat}
    {stopped : Option Error}
    (stops : (Feed.ofStimulus graph.inputs.length source).StopsAfter log stop stopped) :
    (simulated graph source log).failure = stopped ∧
      (simulated graph source log).partition =
        (Partition.initial graph.sweep).refineAll (graph.sweep.valuesOf
          ((Feed.ofStimulus graph.inputs.length source).batches.take stop)
          (.zeros graph.sweep.size)) := by
  have inputs : graph.sweep.inputs = graph.inputs := graph.frame_sweep.inputs
  rw [← inputs] at stops ⊢
  exact Graph.simulateAll_stopsAfter rfl stops 1 _ _

theorem report_counts {source : Source} {log : PatternLog} {report : SessionReport}
    (success : (run graph source log).result = .ok report) :
    let feed := Feed.ofStimulus graph.inputs.length source
    report.patterns = Feed.patterns feed.batches ∧ report.batches = feed.batches.length := by
  intro feed
  rcases report_of_result_eq_ok success with ⟨finished, rfl⟩
  have inputs : graph.sweep.inputs = graph.inputs := graph.frame_sweep.inputs
  have delivered : Feed.ofStimulus graph.sweep.inputs.length source =
      ⟨feed.batches, feed.failure⟩ := by rw [inputs]
  exact Graph.simulateAll_counts delivered _ 1 log _ _ finished

theorem exists_report_of_hasRoom (wellFormed : graph.WellFormed) {source : Source}
    {log : PatternLog} {batches : List Batch}
    (delivered : Feed.ofStimulus graph.inputs.length source = ⟨batches, none⟩)
    (room : log.HasRoom (Feed.patterns batches)) :
    ∃ report, (run graph source log).result = .ok report := by
  have stops : (Feed.ofStimulus graph.inputs.length source).StopsAfter log batches.length none := by
    rw [delivered]
    exact .asking room
  exact ⟨_, result_of_finished wellFormed (simulated_stopsAfter stops).1⟩

/-- A session fails when its source does and when its log refuses a line, and only then. It
leaves the swept graph, where nothing but dead gates and the edges to them was touched, and the
classes of the swept graph as the batches so far have split them, in the order in which they
came up. -/
theorem run_stopped (wellFormed : graph.WellFormed) (source : Source) (log : PatternLog)
    (failure : Error) :
    let feed := Feed.ofStimulus graph.inputs.length source
    let session := run graph source log
    (session.result = .error failure ↔ ∃ stop, feed.StopsAfter log stop (some failure)) ∧
      ∀ stop, feed.StopsAfter log stop (some failure) →
        session.graph = graph.sweep ∧ graph.SweptTo session.graph ∧
          let values := graph.sweep.valuesOf (feed.batches.take stop) (.zeros graph.sweep.size)
          List.Forall₂ graph.sweep.Evaluates (feed.batches.take stop) values ∧
            session.partition = (Partition.initial graph.sweep).refineAll values := by
  intro feed session
  have left : ∀ stop, feed.StopsAfter log stop (some failure) →
      session.graph = graph.sweep ∧
        session.partition = (simulated graph source log).partition ∧
          session.result = .error failure :=
    fun stop stops => run_of_failed (simulated_stopsAfter stops).1
  refine ⟨⟨fun failed => ?_, fun ⟨stop, stops⟩ => (left stop stops).2.2⟩, fun stop stops => ?_⟩
  · rcases feed.exists_stopsAfter log with ⟨stop, stopped, stops⟩
    have simulation := (simulated_stopsAfter stops).1
    cases stopped with
    | none =>
        have success := result_of_finished wellFormed simulation
        rw [failed] at success
        cases success
    | some other =>
        have result := (run_of_failed simulation).2.2
        rw [failed] at result
        cases result
        exact ⟨stop, stops⟩
  · rcases left stop stops with ⟨final, partition, -⟩
    refine ⟨final, final ▸ graph.sweptTo_sweep, ?_, ?_⟩
    · exact wellFormed.sweep.evaluates_valuesOf graph.live_sweep _ (Words.ready_zeros graph.sweep)
    · rw [partition, (simulated_stopsAfter stops).2]

/-- A source that gives way after four patterns, and a log that takes three of them: both leave
the classes that the four patterns have split. -/
theorem run_stopped_twins :
    let failure := Error.pattern (.refused "no more")
    let source : ListedSource := ⟨[.ofWords [0b0011#32, 0b0101#32] 4], some failure⟩
    let refused := run Graph.twins source .unlimited
    let full := run Graph.twins source (.limited 3)
    (refused.result = .error failure ∧ full.result = .error (.stream .logFull)) ∧
      (refused.graph = Graph.twins.sweep ∧ full.graph = Graph.twins.sweep) ∧
        refused.partition = ⟨[[.low, .plain 5], [.plain 3, .plain 4]]⟩ ∧
          full.partition = refused.partition := by
  intro failure source refused full
  have wellFormed := Graph.consistent_twins.toWellFormed
  have feed := ListedSource.feed_eq Graph.twins.inputs.length source.batches source.failure
  have asking : (Feed.ofStimulus Graph.twins.inputs.length source).StopsAfter .unlimited 1
      (some failure) := by
    rw [feed]
    exact .asking trivial
  have writing : (Feed.ofStimulus Graph.twins.inputs.length source).StopsAfter (.limited 3) 1
      (some (.stream .logFull)) := by
    rw [feed]
    exact .writing (by decide) (Nat.zero_le 3) (show ¬4 ≤ 3 by decide)
  rcases run_stopped wellFormed source .unlimited failure with ⟨refusedResult, refusedLeft⟩
  rcases run_stopped wellFormed source (.limited 3) (.stream .logFull) with ⟨fullResult, fullLeft⟩
  rcases refusedLeft 1 asking with ⟨refusedGraph, -, -, refusedClasses⟩
  rcases fullLeft 1 writing with ⟨fullGraph, -, -, fullClasses⟩
  have classes : (Partition.initial Graph.twins.sweep).refineAll (Graph.twins.sweep.valuesOf
      (source.batches.take 1) (.zeros Graph.twins.sweep.size)) =
        ⟨[[.low, .plain 5], [.plain 3, .plain 4]]⟩ := by decide +kernel
  rw [feed] at refusedClasses fullClasses
  exact ⟨⟨refusedResult.mpr ⟨1, asking⟩, fullResult.mpr ⟨1, writing⟩⟩,
    ⟨refusedGraph, fullGraph⟩, refusedClasses.trans classes,
    fullClasses.trans refusedClasses.symm⟩

end Session

end AndInverter
