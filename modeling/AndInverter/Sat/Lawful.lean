import AndInverter.Sat.Decision
import AndInverter.Sat.Solver
import AndInverter.Sat.Transcript

namespace AndInverter

/-! Lawful back ends. A back end is tracked when it can be read as a formula, a list
of assumptions and a set of variables in use: each call does to these what its name
says, and a new variable was not in use. It is sound when it never denies an assignment
that exists, and lawful when its other answer is right too. A solve may fail, but it
does not lie. -/

class TrackedBackend (State : Type) [Backend State] where
  clauses : State → Formula
  assumptions : State → List SatLiteral
  /-- the variable was given out, or may not be given out any more -/
  InUse : State → Nat → Prop
  clauses_reset : ∀ state : State, clauses (Backend.reset state) = []
  assumptions_reset : ∀ state : State, assumptions (Backend.reset state) = []
  newVariable_negated : ∀ state : State, (Backend.newVariable state).1.negated = false
  newVariable_fresh : ∀ state : State, ¬InUse state (Backend.newVariable state).1.index
  newVariable_inUse : ∀ state : State,
    InUse (Backend.newVariable state).2 (Backend.newVariable state).1.index
  inUse_newVariable : ∀ (state : State) (index : Nat),
    InUse state index → InUse (Backend.newVariable state).2 index
  clauses_newVariable : ∀ state : State, clauses (Backend.newVariable state).2 = clauses state
  assumptions_newVariable : ∀ state : State,
    assumptions (Backend.newVariable state).2 = assumptions state
  inUse_addClause : ∀ (state : State) (clause : Clause) (index : Nat),
    InUse state index → InUse (Backend.addClause clause state) index
  clauses_addClause : ∀ (state : State) (clause : Clause),
    clauses (Backend.addClause clause state) = clauses state ++ [clause]
  assumptions_addClause : ∀ (state : State) (clause : Clause),
    assumptions (Backend.addClause clause state) = assumptions state
  clauses_assume : ∀ (state : State) (literals : List SatLiteral),
    clauses (Backend.assume literals state) = clauses state
  assumptions_assume : ∀ (state : State) (literals : List SatLiteral),
    assumptions (Backend.assume literals state) = literals

def TrackedBackend.query {State : Type} [Backend State] [TrackedBackend State]
    (state : State) : Formula :=
  clauses state ++ Formula.units (assumptions state)

namespace TrackedBackend

variable {State : Type} [Backend State] [TrackedBackend State]

theorem clauses_addFormula (formula : Formula) (state : State) :
    clauses (Backend.addFormula formula state) = clauses state ++ formula := by
  induction formula generalizing state with
  | nil => exact (List.append_nil _).symm
  | cons clause formula induction =>
      change clauses (Backend.addFormula formula (Backend.addClause clause state)) = _
      rw [induction, clauses_addClause, List.append_assoc]
      rfl

theorem inUse_addFormula (formula : Formula) {state : State} {index : Nat}
    (used : InUse state index) : InUse (Backend.addFormula formula state) index := by
  induction formula generalizing state with
  | nil => exact used
  | cons clause formula induction => exact induction (inUse_addClause state clause index used)

end TrackedBackend

class SoundBackend (State : Type) [Backend State] extends TrackedBackend State where
  unsatisfiable_right : ∀ state : State, (Backend.solve state).1 = .ok false →
    ¬(TrackedBackend.query state).Satisfiable

class LawfulBackend (State : Type) [Backend State] extends SoundBackend State where
  satisfiable_right : ∀ state : State, (Backend.solve state).1 = .ok true →
    (TrackedBackend.query state).Satisfiable

theorem LawfulBackend.solve_right {State : Type} [Backend State] [LawfulBackend State]
    (state : State) (answer : Bool) (solved : (Backend.solve state).1 = .ok answer) :
    answer = true ↔ (TrackedBackend.query state).Satisfiable := by
  cases answer with
  | true => simp [satisfiable_right state solved]
  | false => simp [SoundBackend.unsatisfiable_right state solved]

def Backend.Answers (State : Type) [Backend State] : Prop :=
  ∀ state : State, ∃ answer, (Backend.solve state).1 = .ok answer

private theorem hold_of_holds {assignment : Nat → Bool} {premises : Premises}
    (satisfied : Formula.holds assignment
      (premises.clauses.toList ++ Formula.units premises.assumptions.toList) = true) :
    premises.Hold assignment := by
  have every := List.all_eq_true.mp satisfied
  constructor
  · intro clause member
    exact every clause (List.mem_append_left _ (by simpa using member))
  · intro literal member
    have single := every [literal]
      (List.mem_append_right _ (List.mem_map.mpr ⟨literal, by simpa using member, rfl⟩))
    simpa [Clause.holds] using single

/-- The evidence of a search decides, whatever the search did: an assignment is tried, a
derivation is checked, and splitting takes the place of evidence that does not convince. -/
theorem Verdict.decide_iff (verdict : Verdict) (steps : List Derivation.Step)
    (premises : Premises) :
    verdict.decide steps premises = true ↔ Formula.Satisfiable
      (premises.clauses.toList ++ Formula.units premises.assumptions.toList) := by
  have unrefuted (steps : List Derivation.Step) (satisfiable : Formula.Satisfiable
      (premises.clauses.toList ++ Formula.units premises.assumptions.toList)) :
      Derivation.refutes premises steps = false := by
    obtain ⟨assignment, satisfied⟩ := satisfiable
    rw [Bool.eq_false_iff]
    intro refuted
    exact Derivation.not_hold_of_refutes refuted assignment (hold_of_holds satisfied)
  cases verdict with
  | unknown => exact Formula.isSatisfiable_iff _
  | model values =>
      simp only [decide, Bool.or_eq_true, Formula.isSatisfiable_iff]
      exact ⟨fun either => either.elim (fun satisfied => ⟨_, satisfied⟩) id, .inr⟩
  | contradiction hints =>
      simp only [decide, Bool.and_eq_true, Bool.not_eq_true', Formula.isSatisfiable_iff]
      exact ⟨And.right, fun satisfiable => ⟨unrefuted _ satisfiable, satisfiable⟩⟩
  | failedAssumption hints =>
      simp only [decide, Bool.and_eq_true, Bool.not_eq_true', Formula.isSatisfiable_iff]
      exact ⟨And.right, fun satisfiable => ⟨unrefuted _ satisfiable, satisfiable⟩⟩

namespace Solver

private theorem inUse_le_mention (literals : List SatLiteral) (solver : Solver) :
    solver.inUse ≤ (solver.mention literals).inUse := by
  suffices grows : ∀ bound, bound ≤
      literals.foldl (fun bound literal => max bound (literal.index + 1)) bound from
    grows solver.inUse
  induction literals with
  | nil => exact fun _ => Nat.le_refl _
  | cons head tail induction =>
      intro bound
      exact Nat.le_trans (Nat.le_max_left _ _) (induction _)

private theorem add_fields (clause : Clause) (solver : Solver) :
    solver.inUse ≤ (solver.add clause).inUse ∧
      (solver.add clause).clauses = solver.clauses.push clause ∧
      (solver.add clause).assumptions = solver.assumptions := by
  unfold add
  simp only
  split
  · exact ⟨Nat.le_refl _, rfl, rfl⟩
  · exact ⟨inUse_le_mention clause solver, rfl, rfl⟩

private theorem answer_iff (solver : Solver) : solver.answer.1 = true ↔
    Formula.Satisfiable (solver.clauses.toList ++ Formula.units solver.assumptions) :=
  Verdict.decide_iff solver.search.solve.verdict solver.search.solve.steps
    ⟨solver.clauses, solver.assumptions.toArray⟩

theorem answers : Backend.Answers Solver :=
  fun solver => ⟨solver.answer.1, rfl⟩

instance : LawfulBackend Solver where
  clauses solver := solver.clauses.toList
  assumptions := Solver.assumptions
  InUse solver index := index < solver.inUse
  clauses_reset _ := rfl
  assumptions_reset _ := rfl
  newVariable_negated _ := rfl
  newVariable_fresh _ := Nat.lt_irrefl _
  newVariable_inUse solver := Nat.lt_succ_self solver.inUse
  inUse_newVariable _ _ used := Nat.lt_succ_of_lt used
  clauses_newVariable _ := rfl
  assumptions_newVariable _ := rfl
  inUse_addClause solver clause _ used := Nat.lt_of_lt_of_le used (add_fields clause solver).1
  clauses_addClause solver clause := by
    show (solver.add clause).clauses.toList = _
    rw [(add_fields clause solver).2.1, Array.toList_push]
  assumptions_addClause solver clause := (add_fields clause solver).2.2
  clauses_assume _ _ := rfl
  assumptions_assume _ _ := rfl
  unsatisfiable_right solver solved := by
    intro satisfiable
    have answered := (answer_iff solver).mpr satisfiable
    rw [Except.ok.inj solved] at answered
    cases answered
  satisfiable_right solver solved := (answer_iff solver).mp (Except.ok.inj solved)

end Solver

namespace Recorder

variable {State : Type} [Backend State]

theorem solve_eq_of_ok {recorder : Recorder State} {answer : Bool}
    (solved : (Backend.solve recorder).1 = .ok answer) :
    (Backend.solve recorder.backend).1 = .ok answer := by
  change (if recorder.failing = some recorder.solves then _ else _ :
    Except String Bool × State).1 = _ at solved
  split at solved
  · cases solved
  · exact solved

instance [TrackedBackend State] : TrackedBackend (Recorder State) where
  clauses recorder := TrackedBackend.clauses recorder.backend
  assumptions recorder := TrackedBackend.assumptions recorder.backend
  InUse recorder := TrackedBackend.InUse recorder.backend
  clauses_reset recorder := TrackedBackend.clauses_reset recorder.backend
  assumptions_reset recorder := TrackedBackend.assumptions_reset recorder.backend
  newVariable_negated recorder := TrackedBackend.newVariable_negated recorder.backend
  newVariable_fresh recorder := TrackedBackend.newVariable_fresh recorder.backend
  newVariable_inUse recorder := TrackedBackend.newVariable_inUse recorder.backend
  inUse_newVariable recorder := TrackedBackend.inUse_newVariable recorder.backend
  clauses_newVariable recorder := TrackedBackend.clauses_newVariable recorder.backend
  assumptions_newVariable recorder := TrackedBackend.assumptions_newVariable recorder.backend
  inUse_addClause recorder := TrackedBackend.inUse_addClause recorder.backend
  clauses_addClause recorder := TrackedBackend.clauses_addClause recorder.backend
  assumptions_addClause recorder := TrackedBackend.assumptions_addClause recorder.backend
  clauses_assume recorder := TrackedBackend.clauses_assume recorder.backend
  assumptions_assume recorder := TrackedBackend.assumptions_assume recorder.backend

instance [SoundBackend State] : SoundBackend (Recorder State) where
  unsatisfiable_right recorder solved :=
    SoundBackend.unsatisfiable_right recorder.backend (solve_eq_of_ok solved)

instance [LawfulBackend State] : LawfulBackend (Recorder State) where
  satisfiable_right recorder solved :=
    LawfulBackend.satisfiable_right recorder.backend (solve_eq_of_ok solved)

end Recorder

end AndInverter
