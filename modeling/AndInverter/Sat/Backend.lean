import AndInverter.Sat.Formula

namespace AndInverter

/-! SAT back ends. A back end holds one query at a time: variables, clauses and
assumptions, until it is reset. -/

class Backend (State : Type) where
  reset : State → State
  newVariable : State → SatLiteral × State
  addClause : Clause → State → State
  /-- takes the place of the assumptions so far -/
  assume : List SatLiteral → State → State
  /-- whether the clauses and the assumptions can hold together, or the reason why
  that is not known -/
  solve : State → Except String Bool × State

def Backend.addFormula {State : Type} [Backend State] (formula : Formula) (state : State) : State :=
  formula.foldl (fun state clause => Backend.addClause clause state) state

end AndInverter
