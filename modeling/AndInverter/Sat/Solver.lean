import AndInverter.Sat.Backend
import AndInverter.Sat.Search
import AndInverter.Sat.Splitting

namespace AndInverter

/-! The back end of this library. It keeps the query, and answers it by the evidence of
a search. The search finds some contradictions between clauses when a clause is added and
others when it is asked; once it has found one, the variables of further clauses are not
put into use. -/

namespace Verdict

/-- Whether clauses and assumptions can hold together, by the evidence of a search that
took some steps. Evidence that does not convince is not used: then splitting decides. -/
def decide (verdict : Verdict) (steps : List Derivation.Step) (premises : Premises) : Bool :=
  let formula : Formula :=
    premises.clauses.toList ++ Formula.units premises.assumptions.toList
  let refuted (hints : List Source) : Bool :=
    Derivation.refutes premises (steps.reverse ++ [⟨[], hints⟩])
  match verdict with
  | .model values => formula.holds (values.getD · false) || formula.isSatisfiable
  | .unknown => formula.isSatisfiable
  | .contradiction hints => !refuted hints && formula.isSatisfiable
  | .failedAssumption hints => !refuted hints && formula.isSatisfiable

end Verdict

structure Solver where
  inUse : Nat
  clauses : Array Clause
  assumptions : List SatLiteral
  search : Search

namespace Solver

def empty : Solver := ⟨0, #[], [], .empty⟩

def mention (literals : List SatLiteral) (solver : Solver) : Solver :=
  { solver with
    inUse := literals.foldl (fun bound literal => max bound (literal.index + 1))
      solver.inUse }

def isContradictory (solver : Solver) : Bool :=
  match solver.search.verdict with
  | .contradiction _ => true
  | _ => false

def add (clause : Clause) (solver : Solver) : Solver :=
  let mentioned := if solver.isContradictory then solver else solver.mention clause
  { mentioned with
    clauses := mentioned.clauses.push clause
    search := mentioned.search.addClause clause mentioned.clauses.size }

def assume (literals : List SatLiteral) (solver : Solver) : Solver :=
  { solver.mention literals with
    assumptions := literals
    search := solver.search.assume literals }

def answer (solver : Solver) : Bool × Solver :=
  let search := solver.search.solve
  (search.verdict.decide search.steps ⟨solver.clauses, solver.assumptions.toArray⟩,
    { solver with search })

instance : Backend Solver where
  reset _ := empty
  newVariable solver :=
    (.ofIndex solver.inUse, { solver with inUse := solver.inUse + 1 })
  addClause := add
  assume := assume
  solve solver :=
    let (isSatisfiable, after) := solver.answer
    (.ok isSatisfiable, after)

end Solver

end AndInverter
