import AndInverter.Proofs.Reduction.Separation
import AndInverter.Proofs.Simulation.Session

namespace AndInverter

/-! Complete reductions. With a back end that is lawful and always answers, no comparison of
candidates fails: a pair is separated, or one of the two is merged away. A scan that is
patient enough compares all pairs of a class that stay active; so where the classes are
exact, nothing redundant is left, and a second reduction finds nothing to prove. A scan of
members that agree counts no disproof, so it needs no more patience than for one. -/

variable {State : Type}

/-! ## Patience -/

namespace Graph

/-- So many disproofs in a row are allowed that some members cannot use them up: there are too
few of them, or nothing that a disproof could tell apart. -/
def Patient (graph : Graph) (limit : Nat) (members : List Literal) : Prop :=
  members.length ≤ limit ∨ 0 < limit ∧ graph.Agree members

theorem Patient.of_cons {graph : Graph} {limit : Nat} {member : Literal} {others : List Literal}
    (patient : graph.Patient limit (member :: others)) : graph.Patient limit others :=
  patient.imp Nat.le_of_succ_le
    (And.imp_right fun agree => agree.of_subset (List.subset_cons_self member others))

theorem Preserves.patient {before after : Graph} (preserves : before.Preserves after)
    {limit : Nat} {members : List Literal} (patient : before.Patient limit members) :
    after.Patient limit members :=
  patient.imp_right (And.imp_right preserves.agree)

end Graph

/-! ## Scans -/

namespace Scan

variable {scan after : Scan State}

structure Reaches (scan after : Scan State) : Prop where
  wellFormed : after.graph.WellFormed
  preserves : scan.graph.Preserves after.graph
  idle : scan.graph.Irredundant →
    after.report.proofs = scan.report.proofs ∧ after.report.merges = scan.report.merges

theorem Reaches.refl (wellFormed : scan.graph.WellFormed) : scan.Reaches scan where
  wellFormed := wellFormed
  preserves := .refl scan.graph
  idle _ := ⟨rfl, rfl⟩

theorem Reaches.trans {middle : Scan State} (first : scan.Reaches middle)
    (second : middle.Reaches after) : scan.Reaches after where
  wellFormed := second.wellFormed
  preserves := first.preserves.trans second.preserves
  idle irredundant := by
    have early := first.idle irredundant
    have late := second.idle (first.preserves.irredundant first.wellFormed irredundant)
    exact ⟨late.1.trans early.1, late.2.trans early.2⟩

/-- What the scan for a pivot has done with some members: without a difference among them there
was no disproof, and none is left that carries the pivot's signal, unless failures ran out. -/
structure Tried (limit failures : Nat) (pivot : Literal) (members : List Literal)
    (scan after : Scan State) : Prop extends Scan.Reaches scan after where
  disproofs : scan.graph.Agree (pivot :: members) →
    after.report.disproofs = scan.report.disproofs
  apart : failures + members.length ≤ limit ∨
    failures < limit ∧ scan.graph.Agree (pivot :: members) → after.graph.Apart pivot members

namespace Tried

variable {limit failures : Nat} {pivot member : Literal} {others : List Literal}
  {middle : Scan State}

theorem exhausted (wellFormed : scan.graph.WellFormed) (exhausted : limit ≤ failures) :
    Tried limit failures pivot (member :: others) scan scan where
  toReaches := .refl wellFormed
  disproofs _ := rfl
  apart patient := by
    rw [List.length_cons] at patient
    omega

theorem pivotGone (reached : scan.Reaches after)
    (disproofs : after.report.disproofs = scan.report.disproofs)
    (gone : after.graph.isActive pivot.node = false) :
    Tried limit failures pivot (member :: others) scan after where
  toReaches := reached
  disproofs _ := disproofs
  apart _ := Graph.apart_of_inactive gone _

private theorem rest_subset : pivot :: others ⊆ pivot :: member :: others :=
  List.cons_subset_cons pivot (List.subset_cons_self member others)

theorem skip (tried : Tried limit failures pivot others scan after)
    (inactive : ¬scan.graph.isActive member.node = true) :
    Tried limit failures pivot (member :: others) scan after where
  toReaches := tried.toReaches
  disproofs agree := tried.disproofs (agree.of_subset rest_subset)
  apart patient := by
    rw [List.length_cons] at patient
    have patientOthers :
        failures + others.length ≤ limit ∨ failures < limit ∧ scan.graph.Agree (pivot :: others) :=
      patient.imp (fun short => by omega) (And.imp_right (·.of_subset rest_subset))
    refine Graph.apart_cons_iff.mpr ⟨fun _ active => ?_, tried.apart patientOthers⟩
    exact absurd (tried.preserves.frame.isActive active) inactive

theorem disproved (tried : Tried limit (failures + 1) pivot others middle after)
    (reached : scan.Reaches middle) (pivotActive : scan.graph.isActive pivot.node = true)
    (active : scan.graph.isActive member.node = true)
    (unlike : ¬scan.graph.SameSignal pivot member) :
    Tried limit failures pivot (member :: others) scan after := by
  have disagree : ¬scan.graph.Agree (pivot :: member :: others) := fun agree =>
    unlike (agree pivot List.mem_cons_self member (.tail pivot List.mem_cons_self) pivotActive
      active)
  have reaches := reached.trans tried.toReaches
  refine ⟨reaches, fun agree => absurd agree disagree, fun patient => ?_⟩
  have short := patient.resolve_right fun agree => disagree agree.2
  rw [List.length_cons] at short
  refine Graph.apart_cons_iff.mpr
    ⟨fun pivotStays memberStays same => ?_, tried.apart (.inl (by omega))⟩
  exact unlike ((reaches.preserves.sameSignal_iff pivotStays memberStays).mpr same)

theorem memberGone (tried : Tried limit 0 pivot others middle after)
    (reached : scan.Reaches middle)
    (disproofs : middle.report.disproofs = scan.report.disproofs)
    (gone : middle.graph.isActive member.node = false) (positive : 0 < limit) :
    Tried limit failures pivot (member :: others) scan after := by
  have agreeAfter : scan.graph.Agree (pivot :: member :: others) →
      middle.graph.Agree (pivot :: others) :=
    fun agree => (reached.preserves.agree agree).of_subset rest_subset
  refine ⟨reached.trans tried.toReaches, fun agree => ?_, fun patient => ?_⟩
  · exact (tried.disproofs (agreeAfter agree)).trans disproofs
  · rw [List.length_cons] at patient
    have patientOthers :
        0 + others.length ≤ limit ∨ 0 < limit ∧ middle.graph.Agree (pivot :: others) :=
      patient.imp (fun short => by omega) fun agree => ⟨positive, agreeAfter agree.2⟩
    refine Graph.apart_cons_iff.mpr ⟨fun _ active => ?_, tried.apart patientOthers⟩
    rw [tried.preserves.frame.isActive active] at gone
    cases gone

end Tried

variable [Backend State]

theorem disproofs_compare {pivot member : Literal} {isMerged : Bool}
    (compared : scan.compare pivot member = (after, .ok (some isMerged))) :
    after.report.disproofs = scan.report.disproofs := by
  rw [compare] at compared
  simp only at compared
  split at compared
  · cases compared
  · cases compared
  · split at compared
    · cases compared
    · cases compared
      rfl

variable [LawfulBackend State] (answers : Backend.Answers State)

include answers

theorem prove_answers (wellFormed : scan.graph.WellFormed) {pivot member : Literal}
    (pivotActive : scan.graph.isActive pivot.node = true)
    (memberActive : scan.graph.isActive member.node = true) :
    ∃ answer, (scan.graph.prove pivot member scan.backend).result = .ok answer ∧
      (answer = true ↔ scan.graph.SameSignal pivot member) := by
  rcases wellFormed.prove_of_active scan.backend pivotActive memberActive with
    ⟨asked, -, decided⟩
  rcases answers asked with ⟨different, solved⟩
  rwa [solved] at decided

inductive Comparison (scan after : Scan State) (pivot member : Literal) :
    Result (Option Bool) → Prop
  | apart (unchanged : after.graph = scan.graph)
      (different : ¬scan.graph.SameSignal pivot member) :
      Comparison scan after pivot member (.ok none)
  | pivotGone (stays : after.graph.isActive member.node = true)
      (gone : after.graph.isActive pivot.node = false) :
      Comparison scan after pivot member (.ok (some true))
  | memberGone (stays : after.graph.isActive pivot.node = true)
      (gone : after.graph.isActive member.node = false) :
      Comparison scan after pivot member (.ok (some true))

theorem compare_cases (wellFormed : scan.graph.WellFormed) {pivot member : Literal}
    (pivotCandidate : scan.graph.Candidate pivot.node)
    (memberCandidate : scan.graph.Candidate member.node) (different : pivot.node ≠ member.node) :
    ∃ after answer, scan.compare pivot member = (after, answer) ∧ scan.Reaches after ∧
      Comparison scan after pivot member answer := by
  have pivotActive := wellFormed.isActive_of_candidate pivotCandidate
  have memberActive := wellFormed.isActive_of_candidate memberCandidate
  rcases prove_answers answers wellFormed pivotActive memberActive with ⟨answer, result, right⟩
  cases answer with
  | false =>
      have apart : ¬scan.graph.SameSignal pivot member :=
        fun same => Bool.false_ne_true (right.mpr same)
      rw [compare]
      simp only [result]
      refine ⟨_, _, rfl, ?_, .apart rfl apart⟩
      exact ⟨wellFormed, .refl scan.graph, fun _ => ⟨rfl, rfl⟩⟩
  | true =>
      have same := right.mp rfl
      rcases wellFormed.mergeEqual_eq_ok pivotCandidate memberCandidate different with
        ⟨merged, dropped, which, left⟩
      rw [compare]
      simp only [result, append, merged]
      refine ⟨_, _, rfl, ?_, ?_⟩
      · refine ⟨wellFormed.mergeEqual pivot member, wellFormed.preserves_mergeEqual same, ?_⟩
        intro irredundant
        exact absurd same (irredundant pivot member pivotCandidate memberCandidate different)
      · rcases which with rfl | rfl
        · apply Comparison.pivotGone
          · simp [left, memberActive, different.symm]
          · simp [left]
        · apply Comparison.memberGone
          · simp [left, pivotActive, different]
          · simp [left]

/-- The scan for one pivot: by induction on the members, where a disproof uses up one of
the failures that are allowed, and a merge takes the pivot or the member away. -/
theorem scanPivot_tried (limit : Nat) {pivot : Literal} {members : List Literal}
    (failures : Nat) (wellFormed : scan.graph.WellFormed)
    (pivotCandidate : scan.graph.Candidate pivot.node)
    (mergeable : ∀ member ∈ members, scan.graph.Mergeable member.node)
    (different : ∀ member ∈ members, pivot.node ≠ member.node) :
    ∃ after, scan.scanPivot limit pivot members failures = (after, none) ∧
      Tried limit failures pivot members scan after := by
  induction members generalizing failures scan with
  | nil => exact ⟨scan, rfl, .refl wellFormed, fun _ => rfl, fun _ _ member => nomatch member⟩
  | cons member others induction =>
      rcases List.forall_mem_cons.mp mergeable with ⟨memberMergeable, mergeable⟩
      rcases List.forall_mem_cons.mp different with ⟨memberDifferent, different⟩
      rw [scanPivot]
      by_cases active : scan.graph.isActive member.node = true
      · rw [if_neg (by simp [active])]
        by_cases exhausted : limit ≤ failures
        · rw [if_pos exhausted]
          exact ⟨scan, rfl, .exhausted wellFormed exhausted⟩
        · rw [if_neg exhausted]
          rcases compare_cases answers wellFormed pivotCandidate
            (memberMergeable.candidate active) memberDifferent with
            ⟨next, answer, compared, reached, comparison⟩
          rw [compared]
          cases comparison with
          | apart unchanged unlike =>
              have pivotActive := wellFormed.isActive_of_candidate pivotCandidate
              rw [← unchanged] at pivotCandidate mergeable
              rcases induction (failures + 1) reached.wellFormed pivotCandidate mergeable
                different with ⟨after, scanned, tried⟩
              exact ⟨after, scanned, tried.disproved reached pivotActive active unlike⟩
          | pivotGone stays gone =>
              simp only [stays, Bool.and_self, if_true]
              exact ⟨next, rfl, .pivotGone reached (disproofs_compare compared) gone⟩
          | memberGone stays gone =>
              simp only [gone, Bool.and_false, Bool.false_eq_true, if_false]
              have frame := reached.preserves.frame
              rcases induction 0 reached.wellFormed
                ((pivotCandidate.mergeable.of_frame frame).candidate stays)
                (fun other inside => (mergeable other inside).of_frame frame) different with
                ⟨after, scanned, tried⟩
              exact ⟨after, scanned,
                tried.memberGone reached (disproofs_compare compared) gone (by omega)⟩
      · rw [if_pos (by simp [active])]
        rcases induction failures wellFormed pivotCandidate mergeable different with
          ⟨after, scanned, tried⟩
        exact ⟨after, scanned, tried.skip active⟩

theorem scanClass_reaches (limit : Nat) {members : List Literal}
    (wellFormed : scan.graph.WellFormed)
    (mergeable : ∀ member ∈ members, scan.graph.Mergeable member.node)
    (distinct : (members.map Literal.node).Nodup) :
    ∃ after, scan.scanClass limit members = (after, none) ∧ scan.Reaches after ∧
      (scan.graph.Agree members → after.report.disproofs = scan.report.disproofs) ∧
      (scan.graph.Patient limit members → after.graph.Separated members) := by
  induction members generalizing scan with
  | nil => exact ⟨scan, rfl, .refl wellFormed, fun _ => rfl, fun _ => .nil⟩
  | cons pivot others induction =>
      rcases List.forall_mem_cons.mp mergeable with ⟨pivotMergeable, mergeable⟩
      rw [List.map_cons, List.nodup_cons] at distinct
      have rest := List.subset_cons_self pivot others
      rw [scanClass]
      by_cases active : scan.graph.isActive pivot.node = true
      · rw [if_neg (by simp [active])]
        have different : ∀ member ∈ others, pivot.node ≠ member.node :=
          fun member inside equal => distinct.1 (equal ▸ List.mem_map_of_mem inside)
        rcases scanPivot_tried answers limit 0 wellFormed (pivotMergeable.candidate active)
          mergeable different with ⟨next, compared, tried⟩
        rw [compared]
        have reached := tried.toReaches
        have frame := reached.preserves.frame
        rcases induction reached.wellFormed
          (fun member inside => (mergeable member inside).of_frame frame) distinct.2 with
          ⟨after, scanned, later, confirmed, separated⟩
        refine ⟨after, scanned, reached.trans later, fun agree => ?_, fun patient => ?_⟩
        · have agreeAfter := (reached.preserves.agree agree).of_subset rest
          exact (confirmed agreeAfter).trans (tried.disproofs agree)
        · have patientPivot :
              0 + others.length ≤ limit ∨ 0 < limit ∧ scan.graph.Agree (pivot :: others) :=
            patient.imp_left fun short : others.length + 1 ≤ limit => by omega
          exact Graph.separated_cons_iff.mpr ⟨later.preserves.apart (tried.apart patientPivot),
            separated (reached.preserves.patient patient).of_cons⟩
      · rw [if_pos (by simp [active])]
        rcases induction wellFormed mergeable distinct.2 with
          ⟨after, scanned, reached, confirmed, separated⟩
        refine ⟨after, scanned, reached, fun agree => confirmed (agree.of_subset rest),
          fun patient => ?_⟩
        have gone : after.graph.isActive pivot.node = false :=
          Bool.eq_false_iff.mpr fun later => active (reached.preserves.frame.isActive later)
        exact Graph.separated_cons_iff.mpr
          ⟨Graph.apart_of_inactive gone others, separated patient.of_cons⟩

theorem scanClasses_reaches (scan : Scan State) (limit : Nat) {classes : List (List Literal)}
    (wellFormed : scan.graph.WellFormed)
    (mergeable : ∀ members ∈ classes, ∀ member ∈ members, scan.graph.Mergeable member.node)
    (distinct : ∀ members ∈ classes, (members.map Literal.node).Nodup) :
    ∃ after, scan.scanClasses limit classes = (after, none) ∧ scan.Reaches after ∧
      ((∀ members ∈ classes, scan.graph.Agree members) →
        after.report.disproofs = scan.report.disproofs) ∧
      ((∀ members ∈ classes, scan.graph.Patient limit members) →
        ∀ members ∈ classes, after.graph.Separated members) := by
  induction classes generalizing scan with
  | nil => exact ⟨scan, rfl, .refl wellFormed, fun _ => rfl, fun _ _ member => nomatch member⟩
  | cons members others induction =>
      rcases List.forall_mem_cons.mp mergeable with ⟨membersMergeable, mergeable⟩
      rcases List.forall_mem_cons.mp distinct with ⟨membersDistinct, distinct⟩
      rw [scanClasses]
      rcases scanClass_reaches answers limit wellFormed membersMergeable membersDistinct with
        ⟨next, first, reached, confirmed, separated⟩
      rw [first]
      have frame := reached.preserves.frame
      rcases induction next reached.wellFormed
        (fun other inside member held => (mergeable other inside member held).of_frame frame)
        distinct with ⟨after, scanned, later, confirmedOthers, separatedOthers⟩
      refine ⟨after, scanned, reached.trans later, fun agree => ?_, fun patient => ?_⟩
      · rcases List.forall_mem_cons.mp agree with ⟨membersAgree, agree⟩
        have agreeAfter := fun other inside => reached.preserves.agree (agree other inside)
        exact (confirmedOthers agreeAfter).trans (confirmed membersAgree)
      · rcases List.forall_mem_cons.mp patient with ⟨membersPatient, patient⟩
        have patientAfter := fun other inside => reached.preserves.patient (patient other inside)
        exact List.forall_mem_cons.mpr
          ⟨later.preserves.separated (separated membersPatient), separatedOthers patientAfter⟩

end Scan

/-! ## Reductions -/

namespace Partition

/-- The classes hold nothing but the constant and gates, active or not, and none of them holds
a node twice. -/
structure Comparable (partition : Partition) (graph : Graph) : Prop where
  mergeable : ∀ members ∈ partition.classes, ∀ member ∈ members, graph.Mergeable member.node
  distinct : ∀ members ∈ partition.classes, (members.map Literal.node).Nodup

theorem Covers.comparable {partition : Partition} {graph : Graph}
    (covers : partition.Covers graph) : partition.Comparable graph where
  mergeable members found _ inside :=
    (covers.candidates members found _ (List.mem_map_of_mem inside)).mergeable
  distinct := covers.distinct

theorem Comparable.of_frame {partition : Partition} {before after : Graph}
    (comparable : partition.Comparable before) (frame : before.Frame after) :
    partition.Comparable after where
  mergeable members found member inside :=
    (comparable.mergeable members found member inside).of_frame frame
  distinct := comparable.distinct

end Partition

namespace Reduction

variable [Backend State] [LawfulBackend State] (answers : Backend.Answers State)

include answers

theorem run_reaches {graph : Graph} (wellFormed : graph.WellFormed) {partition : Partition}
    (comparable : partition.Comparable graph) (options : ReductionOptions) (backend : State) :
    ∃ after : Scan State, Scan.Reaches ⟨graph, backend, {}, []⟩ after ∧
      ((∀ members ∈ partition.classes, graph.Agree members) → after.report.disproofs = 0) ∧
      ((∀ members ∈ partition.classes, graph.Patient options.maxFailures members) →
        ∀ members ∈ partition.classes, after.graph.Separated members) ∧
      (run options graph partition backend).graph = after.graph.sweep ∧
      (run options graph partition backend).result = .ok after.report := by
  rcases Scan.scanClasses_reaches answers ⟨graph, backend, {}, []⟩ options.maxFailures
    wellFormed comparable.mergeable comparable.distinct with
    ⟨after, scanned, reached, confirmed, separated⟩
  refine ⟨after, reached, confirmed, separated, ?_, ?_⟩
  · simp only [run, scanned]
  · simp only [run, scanned]

theorem run_idle {graph : Graph} (wellFormed : graph.WellFormed) {partition : Partition}
    (covers : partition.Covers graph) (irredundant : graph.Irredundant)
    (options : ReductionOptions) (backend : State) :
    ∃ report, (run options graph partition backend).result = .ok report ∧
      report.proofs = 0 ∧ report.merges = 0 := by
  rcases run_reaches answers wellFormed covers.comparable options backend with
    ⟨after, reached, -, -, -, result⟩
  exact ⟨after.report, result, reached.idle irredundant⟩

theorem irredundant_run {graph : Graph} (wellFormed : graph.WellFormed) {partition : Partition}
    (covers : partition.Covers graph) (classes : partition.Exact graph)
    (options : ReductionOptions)
    (patient : ∀ members ∈ partition.classes, graph.Patient options.maxFailures members)
    (backend : State) :
    (run options graph partition backend).graph.WellFormed ∧
      (run options graph partition backend).graph.Irredundant := by
  rcases run_reaches answers wellFormed covers.comparable options backend with
    ⟨after, reached, -, separated, final, -⟩
  have swept := reached.wellFormed.sweep
  have preserves := reached.preserves.trans reached.wellFormed.preserves_sweep
  rw [final]
  refine ⟨swept, preserves.irredundant_of_separated swept classes ?_⟩
  exact fun members member =>
    reached.wellFormed.preserves_sweep.separated (separated patient members member)

/-- After a session with at least one batch, a reduction that is patient with the largest
class ends well and leaves no two active gates that compute the same function or opposite
ones, and none that computes a constant. Any further session and reduction find nothing to
prove or to merge. -/
theorem run_complete {graph : Graph} (wellFormed : graph.WellFormed) {session : Session}
    (conducted : Session.Conducted graph session) {summary : SessionReport}
    (success : session.result = .ok summary) (simulated : 0 < summary.batches)
    (options : ReductionOptions)
    (patient : ∀ members ∈ session.partition.classes, members.length ≤ options.maxFailures)
    (backend : State) :
    let reduced := run options session.graph session.partition backend
    (∃ report, reduced.result = .ok report) ∧ reduced.graph.Reduced ∧
      ∀ (next : Session) (nextSummary : SessionReport),
        Session.Conducted reduced.graph next → next.result = .ok nextSummary →
          ∀ (nextOptions : ReductionOptions) (nextBackend : State), ∃ report,
            (run nextOptions next.graph next.partition nextBackend).result = .ok report ∧
              report.proofs = 0 ∧ report.merges = 0 := by
  have started := conducted.wellFormed wellFormed
  rcases conducted.covers wellFormed success with ⟨covers, classes⟩
  rcases run_reaches answers started covers.comparable options backend with
    ⟨after, -, -, -, -, result⟩
  rcases irredundant_run answers started covers (classes simulated) options
    (fun members member => .inl (patient members member)) backend with
    ⟨reducedWellFormed, irredundant⟩
  refine ⟨⟨after.report, result⟩, reducedWellFormed.reduced irredundant, ?_⟩
  intro next nextSummary nextConducted nextSuccess nextOptions nextBackend
  have nextWellFormed := nextConducted.wellFormed reducedWellFormed
  have nextCovers := (nextConducted.covers reducedWellFormed nextSuccess).1
  have preserves := nextConducted.preserves reducedWellFormed
  exact run_idle answers nextWellFormed nextCovers
    (preserves.irredundant nextWellFormed irredundant) nextOptions nextBackend

omit answers in
/-- Among the gates of the sample, two are equal and one is low. A session on all patterns
and a reduction find that out, and the same once more find nothing. -/
theorem run_complete_twins :
    let session := Session.run Graph.twins (ExhaustiveSource.ofInputs 2) .absent
    let reduced := run {} session.graph session.partition Solver.empty
    let next := Session.run reduced.graph (ExhaustiveSource.ofInputs 2) .absent
    let again := run {} next.graph next.partition reduced.backend
    (∃ report, reduced.result = .ok report) ∧ reduced.graph.Reduced ∧
      ∃ report, again.result = .ok report ∧ report.proofs = 0 ∧ report.merges = 0 := by
  intro session reduced next again
  have wellFormed := Graph.consistent_twins.toWellFormed
  have conducted : Session.Conducted Graph.twins session := .run _ _
  have feed : (Feed.ofStimulus 2 (ExhaustiveSource.ofInputs 2)).batches.length = 1 ∧
      (Feed.ofStimulus 2 (ExhaustiveSource.ofInputs 2)).failure = none := by decide +kernel
  have ends : ∀ graph : Graph, graph.WellFormed → graph.inputs.length = 2 →
      ∃ report, (Session.run graph (ExhaustiveSource.ofInputs 2) .absent).result = .ok report ∧
        report.batches = 1 := by
    intro graph graphWellFormed inputs
    have finished : (Feed.ofStimulus graph.inputs.length (ExhaustiveSource.ofInputs 2)).failure =
        none := by rw [inputs, feed.2]
    rcases Session.exists_report_of_feed graphWellFormed (.inl rfl) finished with
      ⟨report, success, batches⟩
    rw [inputs, feed.1] at batches
    exact ⟨report, success, batches⟩
  rcases ends Graph.twins wellFormed rfl with ⟨summary, success, one⟩
  have patient : ∀ members ∈ session.partition.classes, members.length ≤ 8 := by
    have small : ∀ members ∈ (Session.simulated Graph.twins (ExhaustiveSource.ofInputs 2)
        .absent).partition.classes, members.length ≤ 8 := by decide +kernel
    intro members member
    rw [(Session.of_result_eq_ok success).1, Partition.mem_sorted_iff] at member
    exact small members member
  have complete := run_complete Solver.answers wellFormed conducted success (one ▸ Nat.one_pos)
    {} patient Solver.empty
  have invariant := Graph.invariant_preserves session.graph
  rcases (Scan.keeps_preserves session.graph).run (fun _ => invariant.sweep) {} session.graph
    session.partition Solver.empty ⟨conducted.wellFormed wellFormed, .refl session.graph⟩ with
    ⟨reducedWellFormed, preserves⟩
  have frame := (conducted.preserves wellFormed).frame.trans preserves.frame
  rcases ends reduced.graph reducedWellFormed (congrArg List.length frame.inputs) with
    ⟨nextSummary, nextSuccess, -⟩
  exact ⟨complete.1, complete.2.1,
    complete.2.2 next nextSummary (.run _ _) nextSuccess {} reduced.backend⟩

end Reduction

end AndInverter
