import AndInverter.Proofs.Graph.Invariants
import AndInverter.Proofs.Partition.Coverage

namespace AndInverter

/-! Sessions. Whatever the source delivers, the classes of a session cover the swept graph;
they cover it exactly as soon as one batch was simulated. -/

open AndInverter.Graph (Annotates)

variable {Source : Type} [Stimulus Source]

/-! ## Batches -/

theorem Feed.ofStimulus_eq (inputs : Nat) (source : Source) :
    Feed.ofStimulus inputs source =
      match Stimulus.next inputs source with
      | (.ok none, _) => ⟨[], none⟩
      | (.error failure, _) => ⟨[], some failure⟩
      | (.ok (some batch), after) =>
          let rest := Feed.ofStimulus inputs after
          { rest with batches := batch :: rest.batches } := by
  rw [ofStimulus]
  split
  · rename_i asked
    simp only [asked]
  · rename_i asked
    simp only [asked]
  · rename_i asked
    simp only [asked]

namespace Graph

theorem simulateAll_eq (graph : Graph) (order : List Nat) (number : Nat) (log : PatternLog)
    (partition : Partition) (words : Words) (source : Source) :
    graph.simulateAll order number log partition words source =
      match Stimulus.next graph.inputs.length source with
      | (.error failure, _) => ⟨partition, words, [], [], 0, 0, some failure⟩
      | (.ok none, _) => ⟨partition, words, [], [], 0, 0, none⟩
      | (.ok (some batch), after) =>
          let words := graph.simulate order batch words
          let refined := partition.refine words
          let note := Entry.note (.refined (partition.evictions words) refined.classes.length)
          match log.write (if log = .absent then [] else graph.logLines batch words) with
          | (lines, none) => ⟨refined, words, lines, [note], 0, 0, some (.stream .logFull)⟩
          | (lines, some log) =>
              let rest := graph.simulateAll order (number + 1) log refined words after
              let done := Entry.note
                (.simulatedBatch number batch.length refined.classes.length)
              { rest with
                log := lines ++ rest.log
                journal := note :: done :: rest.journal
                patterns := batch.length + rest.patterns
                batches := rest.batches + 1 } := by
  rw [simulateAll]
  split
  · rename_i asked
    simp only [asked]
  · rename_i asked
    simp only [asked]
  · rename_i batch after asked
    rcases written : log.write (if log = .absent then [] else
      graph.logLines batch (graph.simulate order batch words)) with ⟨lines, log?⟩
    cases log? <;> simp only [asked, written]

variable {graph : Graph}

theorem simulateAll_feed {log : PatternLog} (unlimited : log = .absent ∨ log = .unlimited)
    (order : List Nat) (number : Nat) (partition : Partition) (words : Words) (source : Source) :
    let simulated := graph.simulateAll order number log partition words source
    let feed := Feed.ofStimulus graph.inputs.length source
    simulated.batches = feed.batches.length ∧ simulated.failure = feed.failure := by
  generalize bound : Stimulus.remaining source = height
  induction height using Nat.strongRecOn generalizing number partition words source with
  | _ height induction =>
      rw [simulateAll_eq, Feed.ofStimulus_eq]
      rcases asked : Stimulus.next graph.inputs.length source with ⟨delivered, after⟩
      rcases delivered with failure | batch?
      · exact ⟨rfl, rfl⟩
      · cases batch? with
        | none => exact ⟨rfl, rfl⟩
        | some batch =>
            have written : ∀ lines, ∃ taken, log.write lines = (taken, some log) := by
              intro lines
              rcases unlimited with rfl | rfl
              · exact ⟨[], rfl⟩
              · exact ⟨lines, rfl⟩
            simp only
            rcases written (if log = .absent then [] else
              graph.logLines batch (graph.simulate order batch words)) with ⟨taken, equal⟩
            rw [equal]
            have rest := induction _ (bound ▸ Stimulus.remaining_lt asked) (number + 1)
              (partition.refine (graph.simulate order batch words))
              (graph.simulate order batch words) after rfl
            exact ⟨congrArg (· + 1) rest.1, rest.2⟩

/-- The classes cover the graph through all batches, and exactly from the first one on: by
induction on what the source still has. -/
theorem WellFormed.covers_simulateAll (wellFormed : graph.WellFormed) (live : graph.Live)
    (number : Nat) (log : PatternLog) {partition : Partition} {words : Words} (source : Source)
    (ready : words.Ready graph) (covers : partition.Covers graph) :
    let simulated := graph.simulateAll graph.order number log partition words source
    simulated.partition.Covers graph ∧
      (partition.Exact graph ∨ 0 < simulated.batches → simulated.partition.Exact graph) := by
  generalize bound : Stimulus.remaining source = height
  induction height using Nat.strongRecOn generalizing number log partition words source with
  | _ height induction =>
      rw [simulateAll_eq]
      rcases asked : Stimulus.next graph.inputs.length source with ⟨delivered, after⟩
      rcases delivered with failure | batch?
      · exact ⟨covers, fun either => either.elim id fun some => nomatch some⟩
      · cases batch? with
        | none => exact ⟨covers, fun either => either.elim id fun some => nomatch some⟩
        | some batch =>
            have shows := ready.show_simulate wellFormed live batch
            have refined := covers.refine shows
            have sharp := covers.exact_refine shows
            simp only
            rcases log.write (if log = .absent then [] else
              graph.logLines batch (graph.simulate graph.order batch words)) with ⟨lines, log?⟩
            cases log? with
            | none => exact ⟨refined, fun _ => sharp⟩
            | some next =>
                have rest := induction _ (bound ▸ Stimulus.remaining_lt asked) (number + 1) next
                  after (ready.simulate wellFormed batch) refined rfl
                exact ⟨rest.1, fun _ => rest.2 (.inl sharp)⟩

/-! ## Annotations -/

namespace Annotates

variable {after : Graph} (annotates : graph.Annotates after)

include annotates

theorem candidate_iff (id : Nat) : after.Candidate id ↔ graph.Candidate id := by
  rw [Candidate, Candidate, annotates.frame.isGate, annotates.isActive]

theorem sameSignal_iff (left right : Literal) :
    after.SameSignal left right ↔ graph.SameSignal left right := by
  have carries : ∀ assignment (literal : Literal) value,
      after.Carries assignment literal value ↔ graph.Carries assignment literal value :=
    fun assignment literal _ => (annotates.sameFunction literal.node assignment _).symm
  simp only [SameSignal, carries]

end Annotates

end Graph

namespace Partition

variable {partition : Partition} {graph after : Graph}

theorem Covers.annotate (covers : partition.Covers graph) (annotates : graph.Annotates after) :
    partition.Covers after where
  led := covers.led
  distinct := covers.distinct
  candidates members member id inside :=
    (annotates.candidate_iff id).mpr (covers.candidates members member id inside)
  joins left right leftCandidate rightCandidate different same :=
    covers.joins left right ((annotates.candidate_iff _).mp leftCandidate)
      ((annotates.candidate_iff _).mp rightCandidate) different
      ((annotates.sameSignal_iff left right).mp same)

theorem Exact.annotate (holds : partition.Exact graph) (annotates : graph.Annotates after) :
    partition.Exact after := by
  intro left right leftCandidate rightCandidate different same
  exact holds left right ((annotates.candidate_iff _).mp leftCandidate)
    ((annotates.candidate_iff _).mp rightCandidate) different
    ((annotates.sameSignal_iff left right).mp same)

end Partition

/-! ## Sessions -/

namespace Session

variable {graph : Graph}

def simulated (graph : Graph) (source : Source) (log : PatternLog) : Simulated :=
  graph.sweep.simulateAll graph.sweep.order 1 log (.initial graph.sweep)
    (.zeros graph.sweep.size) source

def recorded (graph : Graph) (simulated : Simulated) : Graph × Result Unit :=
  simulated.partition.sorted.recordIn
    (graph.sweep.recordSignatures (graph.sweep.order ++ graph.sweep.inputs) simulated.words)

theorem run_of_finished {source : Source} {log : PatternLog}
    (finished : (simulated graph source log).failure = none) :
    (run graph source log).log = (simulated graph source log).log ∧
      (run graph source log).partition = (simulated graph source log).partition.sorted ∧
      (run graph source log).graph = (recorded graph (simulated graph source log)).1 ∧
      (run graph source log).result = (recorded graph (simulated graph source log)).2.map
        fun _ => ⟨(simulated graph source log).patterns, (simulated graph source log).batches,
          (simulated graph source log).partition.sorted.classes.length⟩ := by
  rw [run, ← simulated, finished]
  exact ⟨rfl, rfl, rfl, rfl⟩

theorem run_of_failed {source : Source} {log : PatternLog} {failure : Error}
    (failed : (simulated graph source log).failure = some failure) :
    (run graph source log).graph = graph.sweep ∧
      (run graph source log).partition = (simulated graph source log).partition ∧
      (run graph source log).result = .error failure := by
  rw [run, ← simulated, failed]
  exact ⟨rfl, rfl, rfl⟩

theorem report_of_result_eq_ok {source : Source} {log : PatternLog} {report : SessionReport}
    (success : (run graph source log).result = .ok report) :
    (simulated graph source log).failure = none ∧
      report = ⟨(simulated graph source log).patterns, (simulated graph source log).batches,
        (simulated graph source log).partition.sorted.classes.length⟩ := by
  cases finished : (simulated graph source log).failure with
  | some failure =>
      rw [(run_of_failed finished).2.2] at success
      cases success
  | none =>
      rw [(run_of_finished finished).2.2.2] at success
      cases outcome : (recorded graph (simulated graph source log)).2 with
      | error failure =>
          rw [outcome] at success
          cases success
      | ok done =>
          rw [outcome] at success
          cases success
          exact ⟨rfl, rfl⟩

theorem of_result_eq_ok {source : Source} {log : PatternLog} {report : SessionReport}
    (success : (run graph source log).result = .ok report) :
    (run graph source log).partition = (simulated graph source log).partition.sorted ∧
      report.batches = (simulated graph source log).batches := by
  rcases report_of_result_eq_ok success with ⟨finished, rfl⟩
  exact ⟨(run_of_finished finished).2.1, rfl⟩

theorem covers_simulated (wellFormed : graph.WellFormed) (source : Source) (log : PatternLog) :
    (simulated graph source log).partition.Covers graph.sweep ∧
      (0 < (simulated graph source log).batches →
        (simulated graph source log).partition.Exact graph.sweep) := by
  have swept := wellFormed.sweep
  have covered := swept.covers_simulateAll graph.live_sweep 1 log source
    (Words.ready_zeros graph.sweep) (Partition.covers_initial swept)
  exact ⟨covered.1, fun some => covered.2 (.inr some)⟩

/-- Whether a session ends well or not, its classes cover its graph. -/
theorem covers_partition (wellFormed : graph.WellFormed) (source : Source) (log : PatternLog) :
    (run graph source log).partition.Covers (run graph source log).graph := by
  have covers := (covers_simulated wellFormed source log).1
  have annotates := graph.annotates_session source log
  cases finished : (simulated graph source log).failure with
  | some failure =>
      rw [(run_of_failed finished).2.1]
      exact covers.annotate annotates
  | none =>
      rw [(run_of_finished finished).2.1]
      exact covers.sorted.annotate annotates

theorem covers_run (wellFormed : graph.WellFormed) {source : Source} {log : PatternLog}
    {report : SessionReport} (success : (run graph source log).result = .ok report) :
    let session := run graph source log
    session.partition.Covers session.graph ∧
      (0 < report.batches → session.partition.Exact session.graph) := by
  rcases of_result_eq_ok success with ⟨partition, batches⟩
  refine ⟨covers_partition wellFormed source log, fun some => ?_⟩
  rw [batches] at some
  rw [partition]
  exact ((covers_simulated wellFormed source log).2 some).sorted.annotate
    (graph.annotates_session source log)

theorem recorded_eq_ok (wellFormed : graph.WellFormed) (source : Source) (log : PatternLog) :
    (recorded graph (simulated graph source log)).2 = .ok () := by
  have covers := (covers_simulated wellFormed source log).1.sorted
  have annotates := (Graph.annotates_recordSignatures (graph.sweep.order ++ graph.sweep.inputs)
    (simulated graph source log).words graph.sweep).trans (Partition.annotates_forget _)
  rw [recorded, Partition.recordIn]
  apply Partition.record_eq_ok
  intro member inside
  rcases List.mem_flatMap.mp inside with ⟨⟨members, position⟩, found, listed⟩
  rcases List.mem_map.mp listed with ⟨literal, held, rfl⟩
  have candidate := covers.candidates members (List.fst_mem_of_mem_zipIdx found) literal.node
    (List.mem_map_of_mem held)
  apply Graph.isDefined_of_isActive
  rw [annotates.isActive]
  exact wellFormed.sweep.isActive_of_candidate candidate

theorem result_of_finished (wellFormed : graph.WellFormed) {source : Source} {log : PatternLog}
    (finished : (simulated graph source log).failure = none) :
    (run graph source log).result =
      .ok ⟨(simulated graph source log).patterns, (simulated graph source log).batches,
        (simulated graph source log).partition.sorted.classes.length⟩ := by
  rw [(run_of_finished finished).2.2.2, recorded_eq_ok wellFormed source log]
  rfl

theorem exists_report_of_feed (wellFormed : graph.WellFormed) {source : Source}
    {log : PatternLog} (unlimited : log = .absent ∨ log = .unlimited)
    (finished : (Feed.ofStimulus graph.inputs.length source).failure = none) :
    ∃ report, (run graph source log).result = .ok report ∧
      report.batches = (Feed.ofStimulus graph.inputs.length source).batches.length := by
  have delivered : (simulated graph source log).batches =
        (Feed.ofStimulus graph.inputs.length source).batches.length ∧
      (simulated graph source log).failure =
        (Feed.ofStimulus graph.inputs.length source).failure :=
    Graph.simulateAll_feed unlimited ..
  exact ⟨_, result_of_finished wellFormed (delivered.2.trans finished), delivered.1⟩

namespace Conducted

variable {session : Session} (conducted : Conducted graph session)

include conducted

theorem wellFormed (wellFormed : graph.WellFormed) : session.graph.WellFormed :=
  conducted.annotates.wellFormed wellFormed.sweep

theorem preserves (wellFormed : graph.WellFormed) : graph.Preserves session.graph :=
  wellFormed.preserves_sweep.trans conducted.annotates.preserves

theorem covers_partition (wellFormed : graph.WellFormed) :
    session.partition.Covers session.graph := by
  rcases conducted.exists_run with ⟨Source, stimulus, source, log, rfl⟩
  exact Session.covers_partition wellFormed source log

theorem covers (wellFormed : graph.WellFormed) {report : SessionReport}
    (success : session.result = .ok report) :
    session.partition.Covers session.graph ∧
      (0 < report.batches → session.partition.Exact session.graph) := by
  rcases conducted.exists_run with ⟨Source, stimulus, source, log, rfl⟩
  exact covers_run wellFormed success

end Conducted

end Session

end AndInverter
