import AndInverter.Sat.Formula
import AndInverter.Traversal.Marks

namespace AndInverter

/-! Derivations: evidence that some clauses contradict some assumptions. A derivation is a
list of clauses, each with the sources that show it: when all literals of the new clause
are false, those force one literal after another, up to a clause none of whose literals
is left. The last clause of a derivation is empty. -/

inductive Source
  | clause (place : Nat)
  | assumption (place : Nat)
  | step (place : Nat)

structure Premises where
  clauses : Array Clause
  assumptions : Array SatLiteral

def Premises.Hold (assignment : Nat → Bool) (premises : Premises) : Prop :=
  (∀ clause ∈ premises.clauses, clause.holds assignment = true) ∧
    ∀ literal ∈ premises.assumptions, literal.holds assignment = true

namespace Derivation

/-- A clause and the sources that show it, in the order in which they are used. -/
structure Step where
  clause : Clause
  hints : List Source

def clause? (premises : Premises) (derived : Array Clause) : Source → Option Clause
  | .clause place => premises.clauses[place]?
  | .assumption place => premises.assumptions[place]?.map fun literal => [literal]
  | .step place => derived[place]?

def leftOver (marks : Marks) (clause : Clause) : Clause :=
  clause.filter fun literal => !marks.contains literal.code

/-- Whether the clauses of some sources lead to a contradiction when the marked literals
are false. A clause that forces nothing is passed over. -/
def contradicts (premises : Premises) (derived : Array Clause) :
    (hints : List Source) → Marks → Bool
  | [], _ => false
  | hint :: others, marks =>
      match (clause? premises derived hint).map (leftOver marks) with
      | none => contradicts premises derived others marks
      | some [] => true
      | some (literal :: rest) =>
          if rest.all (· = literal) then
            contradicts premises derived others (marks.insert literal.not.code)
          else contradicts premises derived others marks

def markClause (clause : Clause) : Marks :=
  clause.foldl (fun marks literal => marks.insert literal.code) (.none 0)

def derives (premises : Premises) (derived : Array Clause) : List Step → Bool
  | [] => false
  | step :: others =>
      contradicts premises derived step.hints (markClause step.clause) &&
        (step.clause.isEmpty || derives premises (derived.push step.clause) others)

def refutes (premises : Premises) (steps : List Step) : Bool :=
  derives premises #[] steps

def Falsifies (assignment : Nat → Bool) (marks : Marks) : Prop :=
  ∀ literal : SatLiteral, marks.contains literal.code = true → literal.holds assignment = false

private theorem exists_leftOver {assignment : Nat → Bool} {marks : Marks} {clause : Clause}
    (falsified : Falsifies assignment marks) (satisfied : clause.holds assignment = true) :
    ∃ literal ∈ leftOver marks clause, literal.holds assignment = true := by
  obtain ⟨literal, member, isTrue⟩ := List.any_eq_true.mp satisfied
  refine ⟨literal, List.mem_filter.mpr ⟨member, ?_⟩, isTrue⟩
  cases marked : marks.contains literal.code with
  | false => rfl
  | true => rw [falsified literal marked] at isTrue; cases isTrue

theorem Falsifies.insert {assignment : Nat → Bool} {marks : Marks} {literal : SatLiteral}
    (falsified : Falsifies assignment marks) (isFalse : literal.holds assignment = false) :
    Falsifies assignment (marks.insert literal.code) := by
  intro other marked
  rw [Marks.contains_insert, Bool.or_eq_true, decide_eq_true_eq] at marked
  rcases marked with same | marked
  · rw [SatLiteral.code_injective same]
    exact isFalse
  · exact falsified other marked

private theorem holds_of_clause? {assignment : Nat → Bool} {premises : Premises}
    {derived : Array Clause} (satisfied : premises.Hold assignment)
    (shown : ∀ clause ∈ derived, clause.holds assignment = true) {source : Source}
    {clause : Clause} (found : clause? premises derived source = some clause) :
    clause.holds assignment = true := by
  cases source with
  | clause place => exact satisfied.1 clause (Array.mem_of_getElem? found)
  | assumption place =>
      obtain ⟨literal, present, rfl⟩ := Option.map_eq_some_iff.mp found
      simpa [Clause.holds] using satisfied.2 literal (Array.mem_of_getElem? present)
  | step place => exact shown clause (Array.mem_of_getElem? found)

theorem not_falsifies_of_contradicts {assignment : Nat → Bool} {premises : Premises}
    {derived : Array Clause} (satisfied : premises.Hold assignment)
    (shown : ∀ clause ∈ derived, clause.holds assignment = true) {hints : List Source}
    {marks : Marks} (contradiction : contradicts premises derived hints marks = true) :
    ¬Falsifies assignment marks := by
  induction hints generalizing marks with
  | nil => cases contradiction
  | cons hint others induction =>
      intro falsified
      unfold contradicts at contradiction
      cases found : clause? premises derived hint with
      | none =>
          rw [found] at contradiction
          exact induction contradiction falsified
      | some clause =>
          obtain ⟨literal, member, isTrue⟩ :=
            exists_leftOver falsified (holds_of_clause? satisfied shown found)
          simp only [found, Option.map_some] at contradiction
          split at contradiction
          · cases ‹some _ = none›
          · rename_i empty
            rw [Option.some.inj empty] at member
            cases member
          · rename_i first rest equal
            rw [Option.some.inj equal] at member
            split at contradiction
            · rename_i repeated
              have same : literal = first := by
                rcases List.mem_cons.mp member with same | later
                · exact same
                · exact of_decide_eq_true (List.all_eq_true.mp repeated literal later)
              refine induction contradiction (falsified.insert ?_)
              rw [SatLiteral.holds_not, ← same, isTrue]
              rfl
            · exact induction contradiction falsified

private theorem falsifies_markClause {assignment : Nat → Bool} {clause : Clause}
    (violated : clause.holds assignment = false) :
    Falsifies assignment (markClause clause) := by
  unfold markClause
  suffices every : ∀ (literals : Clause) (marks : Marks), Falsifies assignment marks →
      (∀ literal ∈ literals, literal.holds assignment = false) → Falsifies assignment
        (literals.foldl (fun marks literal => marks.insert literal.code) marks) by
    apply every
    · intro literal marked
      simp at marked
    · intro literal member
      exact Bool.eq_false_iff.mpr (List.any_eq_false.mp violated literal member)
  intro literals
  induction literals with
  | nil => exact fun _ falsified _ => falsified
  | cons head tail induction =>
      intro marks falsified violated
      exact induction _ (falsified.insert (violated head List.mem_cons_self))
        fun literal member => violated literal (List.mem_cons_of_mem _ member)

private theorem not_hold_of_derives {premises : Premises} {derived : Array Clause}
    {steps : List Step} (refuted : derives premises derived steps = true)
    {assignment : Nat → Bool} (shown : ∀ clause ∈ derived, clause.holds assignment = true) :
    ¬premises.Hold assignment := by
  induction steps generalizing derived with
  | nil => cases refuted
  | cons step others induction =>
      intro satisfied
      unfold derives at refuted
      rw [Bool.and_eq_true, Bool.or_eq_true] at refuted
      have isTrue : step.clause.holds assignment = true := by
        cases value : step.clause.holds assignment with
        | true => rfl
        | false =>
            exact absurd (falsifies_markClause value)
              (not_falsifies_of_contradicts satisfied shown refuted.1)
      rcases refuted.2 with empty | continued
      · rw [List.isEmpty_iff.mp empty] at isTrue
        cases isTrue
      · refine induction continued (fun clause member => ?_) satisfied
        rcases Array.mem_push.mp member with earlier | new
        · exact shown clause earlier
        · exact new ▸ isTrue

/-- A derivation of the empty clause shows that the premises hold under no
assignment. -/
theorem not_hold_of_refutes {premises : Premises} {steps : List Step}
    (refuted : refutes premises steps = true) (assignment : Nat → Bool) :
    ¬premises.Hold assignment :=
  not_hold_of_derives refuted fun _ member => absurd member (Array.not_mem_empty _)

end Derivation

end AndInverter
