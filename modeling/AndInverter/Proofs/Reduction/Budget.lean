import AndInverter.Proofs.Reduction.Interruption

namespace AndInverter

/-! The order of the questions of a reduction, and the budget of a pivot. A reduction takes each
member of each class as a pivot, unless it is gone by then, and asks about the members after it
that are still there. It passes on to the next pivot when it has come to the end, when the pivot
is merged away, or when the last answers were all disproofs, as many as the options allow. The
count starts anew with each pivot. -/

variable {State : Type} [Backend State]

namespace Scan

/-! ## Disproofs in a row -/

/-- The last answers were disproofs, as many as a limit allows. -/
def Exhausted (limit : Nat) (findings : List Finding) : Prop :=
  List.replicate limit true <:+ findings.map Finding.different

theorem exhausted_zero (findings : List Finding) : Exhausted 0 findings :=
  List.nil_suffix

theorem exhausted_succ_iff {limit : Nat} {findings : List Finding} {finding : Finding} :
    Exhausted (limit + 1) (findings ++ [finding]) ↔
      finding.different = true ∧ Exhausted limit findings := by
  rw [Exhausted, Exhausted, List.map_append, List.map_singleton, List.replicate_succ']
  constructor
  · rintro ⟨earlier, same⟩
    rw [← List.append_assoc] at same
    rcases List.append_inj' same rfl with ⟨front, last⟩
    exact ⟨(List.singleton_inj.mp last).symm, earlier, front⟩
  · rintro ⟨last, earlier, front⟩
    exact ⟨earlier, by rw [← List.append_assoc, front, last]⟩

theorem Exhausted.of_le {limit more : Nat} {findings : List Finding} (le : limit ≤ more)
    (exhausted : Exhausted more findings) : Exhausted limit findings := by
  refine List.IsSuffix.trans ?_ exhausted
  rw [← Nat.sub_add_cancel le, List.replicate_add]
  exact List.suffix_append _ _

def Counts (failures : Nat) (findings : List Finding) : Prop :=
  ∀ limit, Exhausted limit findings ↔ limit ≤ failures

theorem counts_nil : Counts 0 [] := by
  intro limit
  rw [Exhausted, List.map_nil, List.suffix_nil, List.replicate_eq_nil_iff, Nat.le_zero]

theorem Counts.disproof {failures : Nat} {findings : List Finding} {finding : Finding}
    (counts : Counts failures findings) (different : finding.different = true) :
    Counts (failures + 1) (findings ++ [finding]) := by
  intro limit
  cases limit with
  | zero => exact iff_of_true (exhausted_zero _) (Nat.zero_le _)
  | succ limit => rw [exhausted_succ_iff, counts limit, Nat.add_le_add_iff_right,
      and_iff_right different]

theorem counts_proof (findings : List Finding) {finding : Finding}
    (equal : finding.different = false) : Counts 0 (findings ++ [finding]) := by
  intro limit
  cases limit with
  | zero => exact iff_of_true (exhausted_zero _) (Nat.zero_le _)
  | succ limit => rw [exhausted_succ_iff, equal]; simp

/-! ## One pivot -/

/-- What the scan for a pivot does with the members that it passes, from a graph in which it
starts: it skips those that are gone, and asks about the others while the pivot is there and
the budget lasts. The findings are those since its start. -/
inductive Passes (limit : Nat) (graph : Graph) (pivot : Literal) :
    (seen : List Literal) → List Finding → Prop
  | start : Passes limit graph pivot [] []
  | skip {seen : List Literal} {findings : List Finding} {member : Literal}
      (passes : Passes limit graph pivot seen findings)
      (inactive : (graph.actOn findings).isActive member.node = false) :
      Passes limit graph pivot (seen ++ [member]) findings
  | ask {seen : List Literal} {findings : List Finding} {member : Literal}
      (passes : Passes limit graph pivot seen findings)
      (pivotActive : (graph.actOn findings).isActive pivot.node = true)
      (memberActive : (graph.actOn findings).isActive member.node = true)
      (patient : ¬Exhausted limit findings) (different : Bool) :
      Passes limit graph pivot (seen ++ [member]) (findings ++ [⟨pivot, member, different⟩])

/-- The whole scan for a pivot: it passes all members, or those before the pivot is merged away
or the budget is used up. -/
def Searches (limit : Nat) (graph : Graph) (pivot : Literal) (members : List Literal)
    (findings : List Finding) : Prop :=
  ∃ seen rest, members = seen ++ rest ∧ Passes limit graph pivot seen findings ∧
    (rest = [] ∨ (graph.actOn findings).isActive pivot.node = false ∨ Exhausted limit findings)

variable {limit : Nat} {graph : Graph} {pivot : Literal} {seen members : List Literal}
  {findings : List Finding}

theorem Passes.row_le (passes : Passes limit graph pivot seen findings) {row : Nat}
    (inside : List.replicate row true <:+: findings.map Finding.different) : row ≤ limit := by
  induction passes with
  | start =>
      rw [List.map_nil, List.infix_nil, List.replicate_eq_nil_iff] at inside
      exact inside ▸ Nat.zero_le limit
  | skip _ _ induction => exact induction inside
  | ask _ _ _ patient different induction =>
      rw [List.map_append, List.map_singleton, List.infix_concat_iff] at inside
      rcases inside with last | earlier
      · cases row with
        | zero => exact Nat.zero_le limit
        | succ row =>
            have before : Exhausted row _ := (exhausted_succ_iff.mp (by
              rw [Exhausted, List.map_append]
              exact last)).2
            by_contra beyond
            exact patient (before.of_le (by omega))
      · exact induction earlier

theorem Passes.eq_nil (passes : Passes 0 graph pivot seen findings) : findings = [] := by
  induction passes with
  | start => rfl
  | skip _ _ induction => exact induction
  | ask _ _ _ patient => exact absurd (exhausted_zero _) patient

/-! ## Rounds -/

def rounds : List Literal → List (Literal × List Literal)
  | [] => []
  | pivot :: others => (pivot, others) :: rounds others

/-- What a reduction finds in each of its rounds, from the graph in which it starts. A pivot that
is gone when its round comes is passed over; any other begins with no findings. -/
inductive Rounds (limit : Nat) :
    Graph → List (Literal × List Literal) → List (List Finding) → Prop
  | nil {graph : Graph} : Rounds limit graph [] []
  | passOver {graph : Graph} {pivot : Literal} {members : List Literal}
      {others : List (Literal × List Literal)} {blocks : List (List Finding)}
      (inactive : graph.isActive pivot.node = false)
      (rounds : Rounds limit graph others blocks) :
      Rounds limit graph ((pivot, members) :: others) ([] :: blocks)
  | search {graph : Graph} {pivot : Literal} {members : List Literal}
      {others : List (Literal × List Literal)} {block : List Finding}
      {blocks : List (List Finding)} (active : graph.isActive pivot.node = true)
      (searches : Searches limit graph pivot members block)
      (rounds : Rounds limit (graph.actOn block) others blocks) :
      Rounds limit graph ((pivot, members) :: others) (block :: blocks)

namespace Rounds

variable {early late : List (Literal × List Literal)} {blocks others : List (List Finding)}

theorem append (first : Rounds limit graph early blocks)
    (second : Rounds limit (graph.actOn blocks.flatten) late others) :
    Rounds limit graph (early ++ late) (blocks ++ others) := by
  induction first with
  | nil => exact second
  | passOver inactive _ induction => exact .passOver inactive (induction second)
  | search active searches _ induction =>
      rw [List.flatten_cons, Graph.actOn_append] at second
      exact .search active searches (induction second)

theorem exists_passes (rounds : Rounds limit graph early blocks) {block : List Finding}
    (member : block ∈ blocks) : ∃ start pivot seen, Passes limit start pivot seen block := by
  induction rounds with
  | nil => cases member
  | @passOver graph pivot _ _ _ _ _ induction =>
      rcases List.mem_cons.mp member with rfl | later
      · exact ⟨graph, pivot, [], .start⟩
      · exact induction later
  | search _ searches _ induction =>
      rcases List.mem_cons.mp member with rfl | later
      · rcases searches with ⟨seen, -, -, passes, -⟩
        exact ⟨_, _, seen, passes⟩
      · exact induction later

end Rounds

/-! ## The scan -/

variable {scan after start : Scan (Remembering State)}

theorem Asked.isActive_of_proof (wellFormed : scan.graph.WellFormed) {member : Literal}
    (pair : Pairable scan.graph pivot member) (active : scan.graph.isActive pivot.node = true)
    (memberActive : scan.graph.isActive member.node = true)
    (once : scan.Asked after [⟨pivot, member, false⟩]) :
    after.graph.isActive pivot.node = !after.graph.isActive member.node := by
  rw [once.graph]
  exact wellFormed.isActive_mergeEqual (pair.1.candidate active)
    (pair.2.1.candidate memberActive) pair.2.2

/-- What the scan for a pivot does at the next member when no solve fails: it goes on with the
others, or it ends there. -/
inductive Turn (limit failures : Nat) (pivot member : Literal) (others : List Literal)
    (scan after : Scan (Remembering State)) : Prop
  | skip (inactive : scan.graph.isActive member.node = false)
      (goesOn : scan.scanPivot limit pivot others failures = (after, none))
  | exhausted (reached : limit ≤ failures) (ends : scan = after)
  | disproof {next : Scan (Remembering State)} (active : scan.graph.isActive member.node = true)
      (patient : ¬limit ≤ failures) (once : scan.Asked next [⟨pivot, member, true⟩])
      (goesOn : next.scanPivot limit pivot others (failures + 1) = (after, none))
  | pivotGone (active : scan.graph.isActive member.node = true) (patient : ¬limit ≤ failures)
      (once : scan.Asked after [⟨pivot, member, false⟩])
      (gone : after.graph.isActive pivot.node = false)
  | memberGone {next : Scan (Remembering State)} (active : scan.graph.isActive member.node = true)
      (patient : ¬limit ≤ failures) (once : scan.Asked next [⟨pivot, member, false⟩])
      (stays : next.graph.isActive pivot.node = true)
      (goesOn : next.scanPivot limit pivot others 0 = (after, none))

theorem turn_of_scanPivot (wellFormed : scan.graph.WellFormed) {member : Literal}
    {others : List Literal} {failures : Nat} (pair : Pairable scan.graph pivot member)
    (active : scan.graph.isActive pivot.node = true)
    (scanned : scan.scanPivot limit pivot (member :: others) failures = (after, none)) :
    Turn limit failures pivot member others scan after := by
  rw [scanPivot] at scanned
  by_cases memberActive : scan.graph.isActive member.node = true
  · rw [if_neg (by simp [memberActive])] at scanned
    by_cases reached : limit ≤ failures
    · rw [if_pos reached] at scanned
      exact .exhausted reached (congrArg Prod.fst scanned)
    · rw [if_neg reached] at scanned
      have compared := (Asked.refl scan).compare wellFormed pair active memberActive
      rcases outcome : scan.compare pivot member with ⟨next, answer⟩
      rw [outcome] at compared scanned
      rcases compared with ⟨apart, rfl, once⟩ | ⟨failure, rfl, -⟩
      · cases apart with
        | true => exact .disproof memberActive reached once scanned
        | false =>
            have left := once.isActive_of_proof wellFormed pair active memberActive
            simp only [Bool.false_eq_true, if_false, Bool.true_and] at scanned
            cases memberStays : next.graph.isActive member.node with
            | true =>
                rw [if_pos memberStays] at scanned
                cases scanned
                rw [memberStays] at left
                exact .pivotGone memberActive reached once left
            | false =>
                rw [if_neg (Bool.eq_false_iff.mp memberStays)] at scanned
                rw [memberStays] at left
                exact .memberGone memberActive reached once left scanned
      · cases scanned
  · rw [if_pos (by simp [memberActive])] at scanned
    exact .skip (Bool.eq_false_iff.mpr memberActive) scanned

/-- The scan for a pivot: by induction on the members, where the count of failures is that of
the disproofs at the end of what was found so far. -/
theorem searches_scanPivot (wellFormed : start.graph.WellFormed) {failures : Nat}
    (asked : start.Asked scan findings) (passes : Passes limit start.graph pivot seen findings)
    (counts : Counts failures findings) (active : scan.graph.isActive pivot.node = true)
    (pairs : ∀ member ∈ members, Pairable start.graph pivot member)
    (scanned : scan.scanPivot limit pivot members failures = (after, none)) :
    ∃ block, start.Asked after block ∧
      Searches limit start.graph pivot (seen ++ members) block := by
  induction members generalizing seen failures findings scan with
  | nil =>
      cases scanned
      exact ⟨findings, asked, seen, [], rfl, passes, .inl rfl⟩
  | cons member others induction =>
      rcases List.forall_mem_cons.mp pairs with ⟨pair, pairs⟩
      have here := pair.of_frame (asked.frame wellFormed)
      have ask (memberActive : scan.graph.isActive member.node = true)
          (patient : ¬limit ≤ failures) (apart : Bool) :
          Passes limit start.graph pivot (seen ++ [member])
            (findings ++ [⟨pivot, member, apart⟩]) :=
        passes.ask (asked.graph ▸ active) (asked.graph ▸ memberActive)
          (fun exhausted => patient ((counts limit).mp exhausted)) apart
      cases turn_of_scanPivot (asked.wellFormed wellFormed) here active scanned with
      | exhausted reached ends =>
          subst ends
          exact ⟨findings, asked, seen, member :: others, rfl, passes,
            .inr (.inr ((counts limit).mpr reached))⟩
      | skip inactive goesOn =>
          rw [List.append_cons]
          exact induction asked (passes.skip (asked.graph ▸ inactive)) counts active pairs goesOn
      | @disproof next memberActive patient once goesOn =>
          rw [List.append_cons]
          have stays : next.graph.isActive pivot.node = true := by
            rw [once.graph]
            exact active
          exact induction (asked.append once) (ask memberActive patient true)
            (counts.disproof rfl) stays pairs goesOn
      | pivotGone memberActive patient once gone =>
          have later := asked.append once
          refine ⟨_, later, seen ++ [member], others, List.append_cons .., ?_, .inr (.inl ?_)⟩
          · exact ask memberActive patient false
          · exact later.graph ▸ gone
      | memberGone memberActive patient once stays goesOn =>
          rw [List.append_cons]
          exact induction (asked.append once) (ask memberActive patient false)
            (counts_proof findings rfl) stays pairs goesOn

theorem rounds_scanClass (wellFormed : scan.graph.WellFormed)
    (pairs : members.Pairwise (Pairable scan.graph))
    (scanned : scan.scanClass limit members = (after, none)) :
    ∃ blocks, scan.Asked after blocks.flatten ∧
      Rounds limit scan.graph (rounds members) blocks := by
  induction members generalizing scan with
  | nil =>
      cases scanned
      exact ⟨[], .refl _, .nil⟩
  | cons pivot others induction =>
      rcases List.pairwise_cons.mp pairs with ⟨pivotPairs, pairs⟩
      rw [scanClass] at scanned
      by_cases active : scan.graph.isActive pivot.node = true
      · rw [if_neg (by simp [active])] at scanned
        rcases outcome : scan.scanPivot limit pivot others 0 with ⟨next, failure?⟩
        rw [outcome] at scanned
        cases failure? with
        | some failure => cases scanned
        | none =>
            rcases searches_scanPivot wellFormed (.refl scan) .start counts_nil active pivotPairs
              outcome with ⟨block, asked, searches⟩
            have frame := asked.frame wellFormed
            rcases induction (asked.wellFormed wellFormed)
              (pairs.imp fun pair => pair.of_frame frame) scanned with ⟨blocks, later, rounds⟩
            exact ⟨block :: blocks, asked.append later, .search active searches
              (asked.graph ▸ rounds)⟩
      · rw [if_pos (by simp [active])] at scanned
        rcases induction wellFormed pairs scanned with ⟨blocks, later, rounds⟩
        exact ⟨[] :: blocks, later, .passOver (Bool.eq_false_iff.mpr active) rounds⟩

theorem rounds_scanClasses (wellFormed : scan.graph.WellFormed) {classes : List (List Literal)}
    (pairs : ∀ members ∈ classes, members.Pairwise (Pairable scan.graph))
    (scanned : scan.scanClasses limit classes = (after, none)) :
    ∃ blocks, scan.Asked after blocks.flatten ∧
      Rounds limit scan.graph (classes.flatMap rounds) blocks := by
  induction classes generalizing scan with
  | nil =>
      cases scanned
      exact ⟨[], .refl _, .nil⟩
  | cons members others induction =>
      rcases List.forall_mem_cons.mp pairs with ⟨membersPairs, pairs⟩
      rw [scanClasses] at scanned
      rcases outcome : scan.scanClass limit members with ⟨next, failure?⟩
      rw [outcome] at scanned
      cases failure? with
      | some failure => cases scanned
      | none =>
          rcases rounds_scanClass wellFormed membersPairs outcome with ⟨early, asked, rounds⟩
          have frame := asked.frame wellFormed
          rcases induction (asked.wellFormed wellFormed)
            (fun members found => (pairs members found).imp fun pair => pair.of_frame frame)
            scanned with ⟨late, later, others⟩
          refine ⟨early ++ late, ?_, rounds.append (asked.graph ▸ others)⟩
          rw [List.flatten_append]
          exact asked.append later

end Scan

def Partition.rounds (partition : Partition) : List (Literal × List Literal) :=
  partition.classes.flatMap Scan.rounds

namespace Reduction

/-- Whatever a back end answers, as long as it does: the questions of a reduction after a session
go round by round. A pivot that is there when its round comes is compared with the members after
it that are there at that moment, until it is merged away itself or the last answers since the
beginning of its round were disproofs, as many as the options allow. So no pivot gets more
disproofs in a row, and without a budget nothing is asked. The solves answer these questions, in
this order, and nothing else decides which graph is left. -/
theorem run_in_rounds {graph : Graph} (wellFormed : graph.WellFormed) {session : Session}
    (conducted : Session.Conducted graph session) (options : ReductionOptions) (backend : State)
    (unfailing : ∀ reason,
      .error reason ∉ answers options session.graph session.partition backend) :
    let reduced := run options session.graph session.partition backend
    let findings := reduced.journal.findings
    answers options session.graph session.partition backend =
        findings.map (fun finding => .ok finding.different) ∧
      session.graph.Gives backend findings reduced.backend ∧
      reduced.graph = (session.graph.actOn findings).sweep ∧
      (∃ blocks, findings = blocks.flatten ∧
        Scan.Rounds options.maxFailures session.graph session.partition.rounds blocks ∧
          ∀ block ∈ blocks, ∀ row, List.replicate row true <:+: block.map Finding.different →
            row ≤ options.maxFailures) ∧
      (options.maxFailures = 0 → findings = []) := by
  have started := conducted.wellFormed wellFormed
  have comparable := (conducted.covers_partition wellFormed).comparable
  intro reduced findings
  rcases exists_scan started comparable options backend unfailing with
    ⟨scan, found, scanned, asked, answered, final, -, ended, -, told, -⟩
  have same : findings = found := told
  rcases Scan.rounds_scanClasses started (fun _ member => comparable.pairwise member) scanned
    with ⟨blocks, inOrder, rounds⟩
  have blocked : found = blocks.flatten :=
    List.append_cancel_left (asked.told.symm.trans inOrder.told)
  rw [same]
  refine ⟨answered, ?_, ?_, ⟨blocks, blocked, rounds, fun block member row inside => ?_⟩, ?_⟩
  · rw [ended]
    exact asked.given.map Remembering.isView_backend
  · rw [final, asked.graph]
    rfl
  · rcases rounds.exists_passes member with ⟨start, pivot, seen, passes⟩
    exact passes.row_le inside
  · intro none
    rw [none] at rounds
    rw [blocked, List.flatten_eq_nil_iff]
    intro block member
    rcases rounds.exists_passes member with ⟨start, pivot, seen, passes⟩
    exact passes.eq_nil

/-- Without a batch all candidates of the sample are in one class. With a budget of one disproof,
the constant is compared with the first gate only, so nobody finds out that the last gate is
low. -/
theorem run_in_rounds_twins :
    let session := Session.run Graph.twins (⟨[], none⟩ : ListedSource) .absent
    (run ⟨1⟩ session.graph session.partition Solver.empty).journal.findings =
        [⟨.low, .plain 3, true⟩, ⟨.plain 3, .plain 4, false⟩, ⟨.plain 3, .plain 5, true⟩] ∧
      answers ⟨1⟩ session.graph session.partition Solver.empty = [.ok true, .ok false, .ok true] ∧
      ∃ blocks, (run ⟨1⟩ session.graph session.partition Solver.empty).journal.findings =
          blocks.flatten ∧
        Scan.Rounds 1 session.graph session.partition.rounds blocks := by
  intro session
  have wellFormed := Graph.consistent_twins.toWellFormed
  have conducted : Session.Conducted Graph.twins session := .run _ _
  have comparable := (conducted.covers_partition wellFormed).comparable
  have findings : (run ⟨1⟩ session.graph session.partition Solver.empty).journal.findings =
      [⟨.low, .plain 3, true⟩, ⟨.plain 3, .plain 4, false⟩, ⟨.plain 3, .plain 5, true⟩] := by
    decide +kernel
  rcases run_in_rounds wellFormed conducted ⟨1⟩ Solver.empty
    (unfailing_of_answers Solver.answers (conducted.wellFormed wellFormed) comparable ⟨1⟩ _) with
    ⟨answered, -, -, ⟨blocks, flatten, rounds, -⟩, -⟩
  rw [findings] at answered
  exact ⟨findings, answered, blocks, flatten, rounds⟩

end Reduction

end AndInverter
