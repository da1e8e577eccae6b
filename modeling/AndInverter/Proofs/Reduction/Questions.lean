import AndInverter.Proofs.Reduction.Separation
import AndInverter.Proofs.Reduction.Views

namespace AndInverter

/-! Questions of a reduction. Each comparison of two candidates puts one question to the back
end, and the journal tells of the pair and the finding. Nothing else decides what a reduction
does to the graph: a proof merges the pair, a disproof changes nothing. The findings so far
give the graph of the moment, whether they are right or wrong. -/

variable {State : Type}

/-! ## Findings -/

/-- What a solve has told of a pair: whether some assignment separates the two. -/
structure Finding where
  pivot : Literal
  member : Literal
  different : Bool
deriving DecidableEq, Repr

def Journal.findings (journal : Journal) : List Finding :=
  journal.filterMap fun
    | .note (.compared pivot member different) => some ⟨pivot, member, different⟩
    | _ => none

@[simp] theorem Journal.findings_append (earlier later : Journal) :
    findings (earlier ++ later) = findings earlier ++ findings later :=
  List.filterMap_append

@[simp] theorem Journal.findings_ofSweep (graph : Graph) :
    (ofSweep graph).silenced.findings = [] := by
  rw [findings, List.filterMap_eq_nil_iff]
  intro entry member
  rcases List.mem_append.mp (List.mem_of_mem_filter member) with event | note
  · rcases List.mem_map.mp event with ⟨id, -, rfl⟩
    rfl
  · split at note
    · cases note
    · rw [List.mem_singleton.mp note]

namespace Graph

variable {graph : Graph} {first second : Literal}

def act (finding : Finding) (graph : Graph) : Graph :=
  if finding.different then graph else (graph.mergeEqual finding.pivot finding.member).graph

def actOn (findings : List Finding) (graph : Graph) : Graph :=
  findings.foldl (fun graph finding => graph.act finding) graph

@[simp] theorem actOn_append (earlier later : List Finding) (graph : Graph) :
    graph.actOn (earlier ++ later) = (graph.actOn earlier).actOn later :=
  List.foldl_append

theorem WellFormed.act (wellFormed : graph.WellFormed) (finding : Finding) :
    (graph.act finding).WellFormed := by
  rw [Graph.act]
  split
  · exact wellFormed
  · exact wellFormed.mergeEqual finding.pivot finding.member

theorem WellFormed.frame_act (wellFormed : graph.WellFormed) (finding : Finding) :
    graph.Frame (graph.act finding) := by
  rw [Graph.act]
  split
  · exact .refl graph
  · exact wellFormed.frame_mergeEqual finding.pivot finding.member

theorem WellFormed.actOn (wellFormed : graph.WellFormed) (findings : List Finding) :
    (graph.actOn findings).WellFormed := by
  induction findings generalizing graph with
  | nil => exact wellFormed
  | cons finding others induction => exact induction (wellFormed.act finding)

theorem WellFormed.frame_actOn (wellFormed : graph.WellFormed) (findings : List Finding) :
    graph.Frame (graph.actOn findings) := by
  induction findings generalizing graph with
  | nil => exact .refl graph
  | cons finding others induction =>
      exact (wellFormed.frame_act finding).trans (induction (wellFormed.act finding))

theorem WellFormed.isActive_mergeEqual (wellFormed : graph.WellFormed)
    (firstCandidate : graph.Candidate first.node) (secondCandidate : graph.Candidate second.node)
    (different : first.node ≠ second.node) :
    (graph.mergeEqual first second).graph.isActive first.node =
      !(graph.mergeEqual first second).graph.isActive second.node := by
  rcases (wellFormed.mergeEqual_eq_ok firstCandidate secondCandidate different).2 with
    ⟨dropped, which, left⟩
  rw [left, left, wellFormed.isActive_of_candidate firstCandidate,
    wellFormed.isActive_of_candidate secondCandidate]
  rcases which with rfl | rfl
  · simp [different.symm]
  · simp [different]

@[simp] theorem findings_mergeEqual (graph : Graph) (first second : Literal) :
    (graph.mergeEqual first second).journal.findings = [] := by
  rw [mergeEqual]
  rcases graph.mergeDirection first second with ⟨keep, drop⟩
  simp only
  split
  · rfl
  · split <;> rfl

variable [Backend State]

theorem journal_prove {left right : Literal} {backend : State} {equal : Bool}
    (answered : (graph.prove left right backend).result = .ok equal) :
    (graph.prove left right backend).journal = [.note (.compared left right !equal)] := by
  rw [prove] at answered ⊢
  simp only at answered ⊢
  split at answered
  · cases answered
  · cases answered
  · rw [askDifferent] at answered ⊢
    split at answered
    · cases answered
    · cases answered
    · simp only at answered ⊢
      split at answered
      · cases answered
      · cases answered
        rw [Bool.not_not]

/-- A back end gives some findings, one query after the other, each about the graph that the
findings before it have left. -/
inductive Gives : Graph → State → List Finding → State → Prop
  | nil {graph : Graph} {backend : State} : Gives graph backend [] backend
  | cons {graph : Graph} {backend after : State} {finding : Finding} {others : List Finding}
      (answered : (graph.prove finding.pivot finding.member backend).result =
        .ok !finding.different)
      (gives : Gives (graph.act finding)
        (graph.prove finding.pivot finding.member backend).backend others after) :
      Gives graph backend (finding :: others) after

namespace Gives

theorem append {backend middle after : State} {earlier later : List Finding}
    (first : graph.Gives backend earlier middle)
    (second : (graph.actOn earlier).Gives middle later after) :
    graph.Gives backend (earlier ++ later) after := by
  induction first with
  | nil => exact second
  | cons answered _ induction => exact .cons answered (induction second)

theorem map {Other : Type} [Backend Other] {view : State → Other}
    (isView : Backend.IsView view) {backend after : State} {findings : List Finding}
    (gives : graph.Gives backend findings after) :
    graph.Gives (view backend) findings (view after) := by
  induction gives with
  | nil => exact .nil
  | @cons graph backend _ finding _ answered _ induction =>
      have same := isView.prove graph finding.pivot finding.member backend
      refine .cons ?_ ?_
      · rw [same]
        exact answered
      · rw [same]
        exact induction

end Gives

end Graph

/-! ## Comparisons -/

namespace Scan

variable [Backend State]

def findings (scan : Scan State) : List Finding :=
  Journal.findings scan.journal.reverse

omit [Backend State] in
theorem findings_append (scan : Scan State) (entries : Journal) :
    (scan.append entries).findings = scan.findings ++ entries.findings := by
  simp only [findings, append, List.reverse_append, List.reverse_reverse,
    Journal.findings_append]

omit [Backend State] in
theorem graph_append (scan : Scan State) (entries : Journal) :
    (scan.append entries).graph = scan.graph :=
  rfl

theorem findings_append_prove {scan : Scan State} {pivot member : Literal} {apart : Bool}
    (answered : (scan.graph.prove pivot member scan.backend).result = .ok !apart) :
    (scan.append (scan.graph.prove pivot member scan.backend).journal).findings =
      scan.findings ++ [⟨pivot, member, apart⟩] := by
  rw [findings_append, Graph.journal_prove answered, Bool.not_not]
  rfl

theorem backend_compare (scan : Scan State) (pivot member : Literal) :
    (scan.compare pivot member).1.backend =
      (scan.graph.prove pivot member scan.backend).backend := by
  rw [compare]
  simp only
  split
  · rfl
  · rfl
  · split <;> rfl

/-- What a scan has done since, when all solves have answered: the findings account for the
graph, the answers and the report. -/
structure Asked (scan after : Scan (Remembering State)) (findings : List Finding) : Prop where
  graph : after.graph = scan.graph.actOn findings
  told : after.findings = scan.findings ++ findings
  given : scan.graph.Gives scan.backend findings after.backend
  answers : after.backend.answers =
    scan.backend.answers ++ findings.map fun finding => .ok finding.different
  disproofs : after.report.disproofs =
    scan.report.disproofs + findings.countP fun finding => finding.different
  proofs : after.report.proofs =
    scan.report.proofs + findings.countP fun finding => !finding.different
  merges : after.report.merges =
    scan.report.merges + findings.countP fun finding => !finding.different

namespace Asked

variable {scan middle after : Scan (Remembering State)} {earlier later : List Finding}

theorem refl (scan : Scan (Remembering State)) : scan.Asked scan [] where
  graph := rfl
  told := (List.append_nil _).symm
  given := .nil
  answers := (List.append_nil _).symm
  disproofs := rfl
  proofs := rfl
  merges := rfl

theorem append (first : scan.Asked middle earlier) (second : middle.Asked after later) :
    scan.Asked after (earlier ++ later) where
  graph := by rw [second.graph, first.graph, Graph.actOn_append]
  told := by rw [second.told, first.told, List.append_assoc]
  given := first.given.append (first.graph ▸ second.given)
  answers := by rw [second.answers, first.answers, List.map_append, List.append_assoc]
  disproofs := by rw [second.disproofs, first.disproofs, List.countP_append, Nat.add_assoc]
  proofs := by rw [second.proofs, first.proofs, List.countP_append, Nat.add_assoc]
  merges := by rw [second.merges, first.merges, List.countP_append, Nat.add_assoc]

theorem wellFormed (asked : scan.Asked after earlier) (wellFormed : scan.graph.WellFormed) :
    after.graph.WellFormed :=
  asked.graph ▸ wellFormed.actOn earlier

theorem frame (asked : scan.Asked after earlier) (wellFormed : scan.graph.WellFormed) :
    scan.graph.Frame after.graph :=
  asked.graph ▸ wellFormed.frame_actOn earlier

end Asked

variable {scan : Scan (Remembering State)} {pivot member : Literal}

theorem stable_answers (known : List (Except String Bool)) :
    Backend.Stable fun memory : Remembering State => memory.answers = known where
  newVariable _ same := same
  addClause _ _ same := same

/-- A comparison of two candidates solves once. It fails only when the solve does, and otherwise
does what the finding calls for. -/
theorem asked_compare (wellFormed : scan.graph.WellFormed)
    (pivotCandidate : scan.graph.Candidate pivot.node)
    (memberCandidate : scan.graph.Candidate member.node) (different : pivot.node ≠ member.node) :
    (∃ apart, (scan.compare pivot member).2 = .ok (if apart then none else some true) ∧
      scan.Asked (scan.compare pivot member).1 [⟨pivot, member, apart⟩]) ∨
    ∃ reason, (scan.compare pivot member).2 = .error (.solver reason) ∧
      (scan.compare pivot member).1.backend.answers = scan.backend.answers ++ [.error reason] := by
  rcases wellFormed.prove_asks (wellFormed.isActive_of_candidate pivotCandidate)
    (wellFormed.isActive_of_candidate memberCandidate) (stable_answers scan.backend.answers)
    scan.backend rfl with
    ⟨prepared, miter, same, backend, result⟩
  have answers : (scan.compare pivot member).1.backend.answers =
      scan.backend.answers ++ [(Backend.solve (Backend.assume [miter] prepared)).1] := by
    rw [backend_compare, backend, ← same]
    rfl
  cases solved : (Backend.solve (Backend.assume [miter] prepared)).1 with
  | error reason =>
      rw [solved] at answers result
      refine .inr ⟨reason, ?_, answers⟩
      rw [compare]
      simp only [result]
  | ok apart =>
      rw [solved] at answers result
      have given : scan.graph.Gives scan.backend [⟨pivot, member, apart⟩]
          (scan.graph.prove pivot member scan.backend).backend := .cons result .nil
      have told := findings_append_prove result
      refine .inl ⟨apart, ?_⟩
      rw [compare] at answers ⊢
      cases apart with
      | true =>
          simp only [result, Bool.not_true] at answers ⊢
          exact ⟨rfl, rfl, told, given, answers, rfl, rfl, rfl⟩
      | false =>
          have merged := (wellFormed.mergeEqual_eq_ok pivotCandidate memberCandidate different).1
          have toldAll := findings_append
            (scan.append (scan.graph.prove pivot member scan.backend).journal)
            (scan.graph.mergeEqual pivot member).journal
          rw [Graph.findings_mergeEqual, List.append_nil, told] at toldAll
          simp only [result, Bool.not_false, graph_append, merged] at answers ⊢
          exact ⟨rfl, rfl, toldAll, given, answers, rfl, rfl, rfl⟩

end Scan

end AndInverter
