import AndInverter.Proofs.Reduction.Interruption

namespace AndInverter

/-! The books of a reduction. Its report counts each solve once, as a proof or as a disproof, and
each proof is a merge, which takes one gate out of service. The final sweep leaves of the other
gates those that the outputs see. -/

namespace Graph

variable {before after : Graph}

theorem mem_retired {id : Nat} : id ∈ before.retired after ↔
    (before.isGate id = true ∧ before.isActive id = true) ∧ after.isActive id = false := by
  rw [retired, List.mem_filter, mem_activeGates, Bool.not_eq_true']

theorem Accounts.perm_retired {merges : List Merge} (accounts : before.Accounts merges after) :
    (before.retired after).Perm (merges.map Merge.gate) := by
  have nodup : (before.retired after).Nodup := (before.nodup_ids.filter _).filter _
  rw [List.perm_ext_iff_of_nodup nodup accounts.distinct]
  intro id
  rw [mem_retired]
  constructor
  · intro retired
    rcases retired with ⟨⟨-, active⟩, gone⟩
    rw [isActive_replay accounts.replayed, active] at gone
    simpa using gone
  · intro merged
    rcases List.mem_map.mp merged with ⟨merge, member, rfl⟩
    rcases accounts.retired merge member with ⟨isGate, active, gone⟩
    exact ⟨⟨isGate, active⟩, gone⟩

end Graph

namespace Reduction

variable {State : Type} [Backend State]

/-- Whatever a back end answers, right or wrong, as long as it does: a reduction after a session
ends well. Its report counts every solve as a proof or a disproof, and every proof as a merge; the
merges are the events of its journal, and the gates that were retired before the final sweep. At
the end there are no classes, and the active gates are those that the outputs see. -/
theorem run_accounted {graph : Graph} (wellFormed : graph.WellFormed) {session : Session}
    (conducted : Session.Conducted graph session) (options : ReductionOptions) (backend : State)
    (unfailing : ∀ reason,
      .error reason ∉ answers options session.graph session.partition backend) :
    let reduced := run options session.graph session.partition backend
    ∃ report, reduced.result = .ok report ∧
      report.proofs + report.disproofs =
        (answers options session.graph session.partition backend).length ∧
      report.proofs = report.merges ∧ report.merges = reduced.journal.events.length ∧
      (∃ (merges : List Merge) (merged : Graph),
        reduced.journal.events = merges.map (Merge.event .reduction) ∧
          session.graph.replay merges = .ok merged ∧ reduced.graph = merged.sweep ∧
            report.merges = (session.graph.retired merged).length) ∧
      reduced.partition = .empty ∧ reduced.stage = .swept ∧
      ∀ gate, reduced.graph.isGate gate = true →
        (reduced.graph.isActive gate = true ↔ reduced.graph.Observed gate) := by
  have started := conducted.wellFormed wellFormed
  have comparable := (conducted.covers_partition wellFormed).comparable
  intro reduced
  rcases exists_scan started comparable options backend unfailing with
    ⟨scan, findings, -, asked, answered, -, noClass, -, stage, -, result⟩
  rcases run_accounts started options session.partition backend with
    ⟨merges, merged, told, accounts, -, ended⟩
  rw [result] at ended
  rcases ended with ⟨final, counted⟩
  have retired := accounts.perm_retired.length_eq
  rw [List.length_map] at retired
  refine ⟨scan.report, result, ?_, ?_, ?_, ⟨merges, merged, told, accounts.replayed, final, ?_⟩,
    noClass, stage, ?_⟩
  · have both : findings.length = _ := List.length_eq_countP_add_countP Finding.different
    simp only [Bool.not_eq_true, Bool.decide_eq_false] at both
    rw [answered, List.length_map, asked.proofs, asked.disproofs, both]
    simp only [begun, Nat.zero_add, Nat.add_comm]
  · exact asked.proofs.trans asked.merges.symm
  · rw [counted, told, List.length_map]
  · exact counted.trans retired.symm
  · intro gate isGate
    rw [show reduced.graph = merged.sweep from final] at isGate ⊢
    exact accounts.wellFormed.isActive_iff_observed_sweep isGate

/-- Without a batch all candidates of the sample are in one class. Two solves are proofs: the last
gate is low, and the other two gates are equal. -/
theorem run_accounted_twins :
    let session := Session.run Graph.twins (⟨[], none⟩ : ListedSource) .absent
    (run {} session.graph session.partition Solver.empty).journal.events =
        [.merge .reduction .low 5, .merge .reduction (.plain 3) 4] ∧
      ∃ report, (run {} session.graph session.partition Solver.empty).result = .ok report ∧
        report.proofs = 2 ∧ report.merges = 2 ∧ 2 + report.disproofs =
          (answers {} session.graph session.partition Solver.empty).length := by
  intro session
  have wellFormed := Graph.consistent_twins.toWellFormed
  have conducted : Session.Conducted Graph.twins session := .run _ _
  have comparable := (conducted.covers_partition wellFormed).comparable
  have events : (run {} session.graph session.partition Solver.empty).journal.events =
      [.merge .reduction .low 5, .merge .reduction (.plain 3) 4] := by decide +kernel
  rcases run_accounted wellFormed conducted {} Solver.empty
    (unfailing_of_answers Solver.answers (conducted.wellFormed wellFormed) comparable {} _) with
    ⟨report, result, solves, proofs, merges, -⟩
  have two : report.merges = 2 := by
    rw [merges, events]
    rfl
  have proved : report.proofs = 2 := proofs.trans two
  rw [proved] at solves
  exact ⟨events, report, result, proved, two, solves⟩

end Reduction

end AndInverter
