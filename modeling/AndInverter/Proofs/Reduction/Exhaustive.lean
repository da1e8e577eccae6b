import AndInverter.Proofs.Reduction.Completeness
import AndInverter.Proofs.Simulation.Exhaustive

namespace AndInverter.Reduction

/-! Reductions after exhaustive sessions. The classes of such a session are uniform: all their
members carry one signal. So nothing is ever disproved, and a reduction that allows a single
failure in a row is complete already. More than one batch would not do, since each of them
sets the inverters anew, whatever the earlier ones have shown. -/

variable {State : Type} [Backend State] [LawfulBackend State] (answers : Backend.Answers State)

include answers

theorem run_uniform {graph : Graph} (wellFormed : graph.WellFormed) {partition : Partition}
    (covers : partition.Covers graph) (classes : partition.Exact graph)
    (uniform : partition.Uniform graph) (options : ReductionOptions) (backend : State) :
    let reduced := run options graph partition backend
    ∃ report, reduced.result = .ok report ∧ report.disproofs = 0 ∧
      (1 ≤ options.maxFailures → reduced.graph.Reduced) := by
  have agree : ∀ members ∈ partition.classes, graph.Agree members :=
    fun members member left leftInside right rightInside _ _ =>
      uniform members member left leftInside right rightInside
  rcases run_reaches answers wellFormed covers.comparable options backend with
    ⟨after, -, confirmed, -, -, result⟩
  refine ⟨after.report, result, confirmed agree, fun patient => ?_⟩
  rcases irredundant_run answers wellFormed covers classes options
    (fun members member => .inr ⟨patient, agree members member⟩) backend with
    ⟨reducedWellFormed, irredundant⟩
  exact reducedWellFormed.reduced irredundant

/-- A session on all patterns of up to five inputs needs one batch, and ends well unless its log
refuses a line. It makes the classes of the functions that the outputs see, with the inverters
set right. A reduction of these classes ends well without a disproof, and with any patience it
leaves no two active gates that compute the same function or opposite ones. -/
theorem run_exhaustive {graph : Graph} (wellFormed : graph.WellFormed)
    (few : graph.inputs.length ≤ 5) (options : SimulationOptions)
    (exhaustive : graph.inputs.length ≤ options.exhaustiveInputs) (log : PatternLog) :
    let session := Session.madeUp graph options log
    (log = .absent ∨ log = .unlimited →
        ∃ summary, session.result = .ok summary ∧ summary.batches = 1) ∧
      session.partition.ByFunction graph ∧
      ∀ (limits : ReductionOptions) (backend : State),
        let reduced := run limits session.graph session.partition backend
        ∃ report, reduced.result = .ok report ∧ report.disproofs = 0 ∧
          (1 ≤ limits.maxFailures → reduced.graph.Reduced) := by
  intro session
  refine ⟨Session.exists_report_madeUp few exhaustive wellFormed,
    Session.byFunction_madeUp few exhaustive wellFormed log, fun limits backend => ?_⟩
  have conducted : Session.Conducted graph session := .madeUp options log
  rcases Session.uniform_madeUp few exhaustive wellFormed log with ⟨covers, classes, uniform⟩
  exact run_uniform answers (conducted.wellFormed wellFormed) covers classes uniform limits backend

omit answers in
/-- Among the gates of the sample, two are equal and one is low, so there are two classes. One
failure in a row is enough to merge them. -/
theorem run_exhaustive_twins :
    let session := Session.madeUp Graph.twins {} .absent
    let reduced := run ⟨1⟩ session.graph session.partition Solver.empty
    (∃ summary, session.result = .ok summary ∧ summary.batches = 1) ∧
      session.partition.ByFunction Graph.twins ∧
      (∀ members, members ∈ session.partition.classes ↔
        members ∈ [[.low, .plain 5], [.plain 3, .plain 4]]) ∧
      ∃ report, reduced.result = .ok report ∧ report.disproofs = 0 ∧ reduced.graph.Reduced := by
  intro session reduced
  have wellFormed := Graph.consistent_twins.toWellFormed
  have few : Graph.twins.inputs.length ≤ 5 := by decide
  have exhaustive : Graph.twins.inputs.length ≤ ({} : SimulationOptions).exhaustiveInputs := by
    decide
  rcases run_exhaustive Solver.answers wellFormed few {} exhaustive .absent with
    ⟨ends, byFunction, reductions⟩
  rcases reductions ⟨1⟩ Solver.empty with ⟨report, result, confirmed, complete⟩
  have classes : ((Partition.initial Graph.twins.sweep).refine
      (Session.exhaustiveWords Graph.twins)).classes = [[.low, .plain 5], [.plain 3, .plain 4]] := by
    decide +kernel
  refine ⟨ends (.inl rfl), byFunction, fun members => ?_, report, result, confirmed,
    complete (Nat.le_refl 1)⟩
  rcases Session.partition_madeUp few exhaustive .absent with unsorted | sorted
  · rw [show session.partition = _ from unsorted, classes]
  · rw [show session.partition = _ from sorted, Partition.mem_sorted_iff, classes]

end AndInverter.Reduction
