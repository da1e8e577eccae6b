import AndInverter.Proofs.Journal
import AndInverter.Proofs.Reduction.Completeness
import AndInverter.Proofs.Reduction.Questions

namespace AndInverter

/-! Interrupted reductions. Over comparable classes nothing but the back end can make a
reduction fail. It ends with the first solve that fails: the merges made so far are complete,
nothing is swept, and the classes stay. Their members may be gone from the graph by then, but a
scan passes over those, so a second reduction with a better back end goes through. -/

variable {State : Type} [Backend State]

/-! ## Scans -/

namespace Scan

variable {start scan : Scan (Remembering State)} {pivot member : Literal}

/-- As long as a scan goes on, every solve has answered. -/
def Unhindered (start scan : Scan (Remembering State)) : Prop :=
  ∃ findings, start.Asked scan findings

/-- A scan ends with the first solve that fails. -/
def Hindered (start scan : Scan (Remembering State)) (failure : Error) : Prop :=
  ∃ (earlier : List Finding) (reason : String), failure = .solver reason ∧
    scan.backend.answers = start.backend.answers ++
      earlier.map (fun finding => .ok finding.different) ++ [.error reason]

def Pairable (graph : Graph) (pivot member : Literal) : Prop :=
  graph.Mergeable pivot.node ∧ graph.Mergeable member.node ∧ pivot.node ≠ member.node

theorem Pairable.of_frame {before after : Graph} (pairable : Pairable before pivot member)
    (frame : before.Frame after) : Pairable after pivot member :=
  ⟨pairable.1.of_frame frame, pairable.2.1.of_frame frame, pairable.2.2⟩

theorem Asked.compare (wellFormed : start.graph.WellFormed) {earlier : List Finding}
    (asked : start.Asked scan earlier) (pairable : Pairable start.graph pivot member)
    (pivotActive : scan.graph.isActive pivot.node = true)
    (memberActive : scan.graph.isActive member.node = true) :
    (∃ apart, (scan.compare pivot member).2 = .ok (if apart then none else some true) ∧
      scan.Asked (scan.compare pivot member).1 [⟨pivot, member, apart⟩]) ∨
    ∃ failure, (scan.compare pivot member).2 = .error failure ∧
      Hindered start (scan.compare pivot member).1 failure := by
  rcases pairable with ⟨pivotMergeable, memberMergeable, different⟩
  have frame := asked.frame wellFormed
  rcases asked_compare (asked.wellFormed wellFormed)
    ((pivotMergeable.of_frame frame).candidate pivotActive)
    ((memberMergeable.of_frame frame).candidate memberActive) different with
    once | ⟨reason, failed, answers⟩
  · exact .inl once
  · refine .inr ⟨_, failed, earlier, reason, rfl, ?_⟩
    rw [answers, asked.answers]

theorem steps_unhindered (wellFormed : start.graph.WellFormed) :
    Steps (Pairable start.graph) (Unhindered start) (Hindered start) where
  goesOn unhindered pairable pivotActive memberActive compared := by
    rcases unhindered with ⟨earlier, asked⟩
    have outcome := asked.compare wellFormed pairable pivotActive memberActive
    rw [compared] at outcome
    rcases outcome with ⟨apart, -, once⟩ | ⟨failure, impossible, -⟩
    · exact ⟨_, asked.append once⟩
    · cases impossible
  fails unhindered pairable pivotActive memberActive compared := by
    rcases unhindered with ⟨earlier, asked⟩
    have outcome := asked.compare wellFormed pairable pivotActive memberActive
    rw [compared] at outcome
    rcases outcome with ⟨apart, impossible, -⟩ | ⟨failure, same, hindered⟩
    · cases impossible
    · cases same
      exact hindered

end Scan

theorem Partition.Comparable.pairwise {partition : Partition} {graph : Graph}
    (comparable : partition.Comparable graph) {members : List Literal}
    (found : members ∈ partition.classes) : members.Pairwise (Scan.Pairable graph) := by
  have distinct := comparable.distinct members found
  rw [List.Nodup, List.pairwise_map] at distinct
  apply distinct.imp_of_mem
  intro pivot member pivotInside memberInside different
  exact ⟨comparable.mergeable members found pivot pivotInside,
    comparable.mergeable members found member memberInside, different⟩

namespace Reduction

/-! ## The end of a reduction -/

theorem run_of_ok {options : ReductionOptions} {graph : Graph} {partition : Partition}
    {backend : State} {report : ReductionReport}
    (success : (run options graph partition backend).result = .ok report) :
    (run options graph partition backend).stage = .swept ∧
      (run options graph partition backend).partition = .empty := by
  rw [run] at success ⊢
  simp only at success ⊢
  split at success
  · cases success
  · exact ⟨rfl, rfl⟩

theorem run_of_error {options : ReductionOptions} {graph : Graph} {partition : Partition}
    {backend : State} {failure : Error}
    (failed : (run options graph partition backend).result = .error failure) :
    (run options graph partition backend).stage = .verifying ∧
      (run options graph partition backend).partition = partition := by
  rw [run] at failed ⊢
  simp only at failed ⊢
  split at failed
  · exact ⟨rfl, rfl⟩
  · cases failed

theorem position_of_failure {earlier : List Bool} {first reason : String} {k : Nat}
    (found : (earlier.map Except.ok ++ [Except.error first])[k]? = some (.error reason)) :
    k = earlier.length ∧ reason = first := by
  rw [List.getElem?_append, List.length_map] at found
  split at found
  · simp at found
  · cases distance : k - earlier.length with
    | zero =>
        rw [distance] at found
        cases found
        exact ⟨by omega, rfl⟩
    | succ further =>
        rw [distance] at found
        cases found

def begun (graph : Graph) (backend : State) : Scan (Remembering State) :=
  ⟨graph, ⟨backend, []⟩, {}, []⟩

theorem scanned_begun {graph : Graph} (wellFormed : graph.WellFormed) {partition : Partition}
    (comparable : partition.Comparable graph) (options : ReductionOptions) (backend : State) :
    Scan.Leaves (Scan.Unhindered (begun graph backend)) (Scan.Hindered (begun graph backend))
      ((begun graph backend).scanClasses options.maxFailures partition.classes) :=
  (Scan.steps_unhindered wellFormed).scanClasses options.maxFailures (begun graph backend)
    ⟨[], .refl _⟩ fun _ found => comparable.pairwise found

theorem exists_answers {graph : Graph} (wellFormed : graph.WellFormed) {partition : Partition}
    (comparable : partition.Comparable graph) (options : ReductionOptions) (backend : State) :
    ∃ earlier : List Bool, answers options graph partition backend = earlier.map .ok ∨
      ∃ reason, (run options graph partition backend).result = .error (.solver reason) ∧
        answers options graph partition backend = earlier.map .ok ++ [.error reason] := by
  have scanned := scanned_begun wellFormed comparable options backend
  rw [run_remembering, answers, run, map, ← begun]
  rcases outcome : (begun graph backend).scanClasses options.maxFailures partition.classes with
    ⟨scan, failure?⟩
  rw [outcome] at scanned
  cases failure? with
  | none =>
      rcases scanned with ⟨findings, asked⟩
      refine ⟨findings.map Finding.different, .inl (asked.answers.trans ?_)⟩
      rw [List.map_map]
      rfl
  | some failure =>
      rcases scanned with ⟨findings, reason, same, answers⟩
      refine ⟨findings.map Finding.different, .inr ⟨reason, congrArg Except.error same, ?_⟩⟩
      rw [List.map_map]
      exact answers

theorem exists_scan {graph : Graph} (wellFormed : graph.WellFormed) {partition : Partition}
    (comparable : partition.Comparable graph) (options : ReductionOptions) (backend : State)
    (unfailing : ∀ reason, .error reason ∉ answers options graph partition backend) :
    let reduced := run options graph partition backend
    ∃ scan findings, (begun graph backend).scanClasses options.maxFailures partition.classes =
        (scan, none) ∧ (begun graph backend).Asked scan findings ∧
      answers options graph partition backend =
        findings.map (fun finding => .ok finding.different) ∧
      reduced.graph = scan.graph.sweep ∧ reduced.partition = .empty ∧
      reduced.backend = scan.backend.backend ∧ reduced.stage = .swept ∧
      reduced.journal.findings = findings ∧ reduced.result = .ok scan.report := by
  have scanned := scanned_begun wellFormed comparable options backend
  intro reduced
  have seen : reduced = _ := run_remembering options graph partition backend
  rw [answers] at unfailing ⊢
  rw [run, ← begun] at seen unfailing ⊢
  rw [seen]
  rcases outcome : (begun graph backend).scanClasses options.maxFailures partition.classes with
    ⟨scan, failure?⟩
  rw [outcome] at scanned unfailing
  cases failure? with
  | some failure =>
      rcases scanned with ⟨findings, reason, -, answers⟩
      exact absurd (answers ▸ List.mem_append_right _ List.mem_cons_self) (unfailing reason)
  | none =>
      rcases scanned with ⟨findings, asked⟩
      refine ⟨scan, findings, rfl, asked, asked.answers, rfl, rfl, rfl, rfl, ?_, rfl⟩
      simp only [map, Journal.findings_append, Journal.findings_ofSweep, List.append_nil]
      exact (List.append_nil _).trans asked.told

/-- What a reduction leaves that a back end has interrupted: all merges that it has told of, no
others, and no sweep; the classes are those of the beginning. -/
structure Interrupted (graph : Graph) (partition : Partition) (reason : String)
    (stopped : Reduction State) : Prop where
  result : stopped.result = .error (.solver reason)
  replayed : ∃ merges : List Merge,
    stopped.journal.events = merges.map (Merge.event .reduction) ∧
      graph.replay merges = .ok stopped.graph
  wellFormed : stopped.graph.WellFormed
  partition : stopped.partition = partition
  stage : stopped.stage = .verifying

structure Completed (graph : Graph) (reduced : Reduction State) : Prop where
  result : ∃ report, reduced.result = .ok report
  stage : reduced.stage = .swept
  partition : reduced.partition = .empty
  outputs : reduced.graph.outputs = graph.outputs
  functions : ∀ output ∈ graph.outputs, graph.SameFunction output reduced.graph output
  observed : ∀ gate, reduced.graph.isGate gate = true → reduced.graph.isActive gate = true →
    reduced.graph.Observed gate

omit [Backend State] in
theorem Completed.of_preserves {before graph : Graph} {reduced : Reduction State}
    (completed : Completed graph reduced) (wellFormed : graph.WellFormed)
    (preserves : before.Preserves graph) : Completed before reduced where
  result := completed.result
  stage := completed.stage
  partition := completed.partition
  outputs := completed.outputs.trans preserves.frame.outputs
  functions output member assignment value := by
    rw [← preserves.frame.outputs] at member
    have early := preserves.functions output (wellFormed.outputs_active output member)
    exact (early assignment value).trans (completed.functions output member assignment value)
  observed := completed.observed

theorem run_completed {Other : Type} [Backend Other] [LawfulBackend Other]
    (answering : Backend.Answers Other) {graph : Graph} (wellFormed : graph.WellFormed)
    {partition : Partition} (comparable : partition.Comparable graph)
    (options : ReductionOptions) (backend : Other) :
    Completed graph (run options graph partition backend) := by
  rcases run_reaches answering wellFormed comparable options backend with
    ⟨after, reached, -, -, final, success⟩
  have ended := run_of_ok success
  have preserves := reached.preserves.trans reached.wellFormed.preserves_sweep
  have swept := reached.wellFormed.sweep
  rw [← final] at preserves swept
  exact {
    result := ⟨after.report, success⟩
    stage := ended.1
    partition := ended.2
    outputs := preserves.frame.outputs
    functions := by
      intro output member
      rw [← preserves.frame.outputs] at member
      exact preserves.functions output (swept.outputs_active output member)
    observed := by
      intro gate isGate active
      rw [final] at isGate active ⊢
      exact (reached.wellFormed.isActive_iff_observed_sweep isGate).mp active }

theorem unfailing_of_answers {Other : Type} [Backend Other] [LawfulBackend Other]
    (answering : Backend.Answers Other) {graph : Graph} (wellFormed : graph.WellFormed)
    {partition : Partition} (comparable : partition.Comparable graph)
    (options : ReductionOptions) (backend : Other) (reason : String) :
    .error reason ∉ answers options graph partition backend := by
  rcases exists_answers wellFormed comparable options backend with
    ⟨earlier, answered | ⟨other, failed, -⟩⟩
  · simp [answered]
  · rcases (run_completed answering wellFormed comparable options backend).result with
      ⟨report, success⟩
    cases failed.symm.trans success

/-- Whatever the back end is: when a solve of a reduction of comparable classes fails, this is
the last one. The reduction returns the failure, and leaves a state in order: every merge is
complete and told, the graph is well-formed and not swept, and the classes are as they were. A
second reduction of the same classes, with a back end that is right and always answers, goes
through and keeps what the outputs compute. -/
theorem run_interrupted {graph : Graph} (wellFormed : graph.WellFormed) {partition : Partition}
    (comparable : partition.Comparable graph) (options : ReductionOptions) (backend : State)
    {k : Nat} {reason : String}
    (failed : (answers options graph partition backend)[k]? = some (.error reason)) :
    let stopped := run options graph partition backend
    (answers options graph partition backend).length = k + 1 ∧
      Interrupted graph partition reason stopped ∧
        ∀ {Other : Type} [Backend Other] [LawfulBackend Other], Backend.Answers Other →
          ∀ (again : ReductionOptions) (other : Other),
            let resumed := run again stopped.graph stopped.partition other
            Completed stopped.graph resumed ∧
              ∀ _ : SoundBackend State, Completed graph resumed := by
  intro stopped
  rcases exists_answers wellFormed comparable options backend with
    ⟨earlier, answered | ⟨first, result, answered⟩⟩
  · rw [answered] at failed
    simp at failed
  · rw [answered] at failed ⊢
    rcases position_of_failure failed with ⟨rfl, rfl⟩
    have ended := run_of_error result
    rcases run_accounts wellFormed options partition backend with
      ⟨merges, merged, told, accounts, faithful, final⟩
    rw [result] at final
    have graphs : stopped.graph = merged := final
    have stillComparable : partition.Comparable stopped.graph :=
      comparable.of_frame (graphs ▸ accounts.frame)
    have stillWellFormed : stopped.graph.WellFormed := graphs ▸ accounts.wellFormed
    refine ⟨by simp, ⟨result, ⟨merges, told, ?_⟩, stillWellFormed, ended.2, ended.1⟩, ?_⟩
    · exact accounts.replayed.trans (congrArg Except.ok graphs.symm)
    · intro Other _ _ answering again other resumed
      have completed : Completed stopped.graph resumed := by
        simp only [resumed, show stopped.partition = partition from ended.2]
        exact run_completed answering stillWellFormed stillComparable again other
      refine ⟨completed, fun sound => completed.of_preserves stillWellFormed ?_⟩
      exact graphs ▸ (faithful sound).preserves

/-- Of the two merges that the sample calls for, the second one meets a solve that fails. -/
theorem run_interrupted_twins :
    let partition : Partition := ⟨[[.low, .plain 5], [.plain 3, .plain 4]]⟩
    let recorder : Recorder Solver := (Recorder.ofBackend Solver.empty).failAt (some 1)
    let stopped := run {} Graph.twins partition recorder
    answers {} Graph.twins partition recorder = [.ok false, .error Recorder.injected] ∧
      Interrupted Graph.twins partition Recorder.injected stopped ∧
        Completed Graph.twins (run {} stopped.graph stopped.partition Solver.empty) := by
  intro partition recorder stopped
  have comparable : partition.Comparable Graph.twins :=
    ⟨by unfold Graph.Mergeable; decide, by decide⟩
  have known : answers {} Graph.twins partition recorder =
      [.ok false, .error Recorder.injected] := by decide +kernel
  have second : (answers {} Graph.twins partition recorder)[1]? =
      some (.error Recorder.injected) := by
    rw [known]
    rfl
  rcases run_interrupted Graph.consistent_twins.toWellFormed comparable {} recorder second with
    ⟨-, left, resumed⟩
  exact ⟨known, left, (resumed Solver.answers {} Solver.empty).2 inferInstance⟩

end Reduction

end AndInverter
