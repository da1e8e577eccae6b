import AndInverter.Equivalence.Encoding
import AndInverter.Journal

namespace AndInverter

/-! Equivalence queries. Two literals are equal when no assignment of the inputs
makes them differ; a query encodes their cones, and asks a back end for an
assignment that does. -/

structure Query (State : Type) where
  backend : State
  journal : Journal
  result : Result Bool

namespace Graph

variable {State : Type} [Backend State]

def askDifferent (left right : Literal) (encoding : Encoding State) : Query State :=
  match encoding.literal left, encoding.literal right with
  | .error failure, _ => ⟨encoding.backend, [], .error failure⟩
  | _, .error failure => ⟨encoding.backend, [], .error failure⟩
  | .ok first, .ok second =>
      let (miter, backend) := Backend.newVariable encoding.backend
      let backend := Backend.addFormula (.xorGate miter first second) backend
      match Backend.solve (Backend.assume [miter] backend) with
      | (.error reason, backend) => ⟨backend, [], .error (.solver reason)⟩
      | (.ok different, backend) =>
          ⟨backend, [.note (.compared left right different)], .ok !different⟩

/-- Whether two literals are equal for every assignment of the inputs. A query
begins with a reset, so nothing of an earlier one matters. -/
def prove (graph : Graph) (left right : Literal) (backend : State) : Query State :=
  let (finished, failure?) := graph.cones left.node right.node
  let start := Encoding.start graph.size (Backend.reset backend)
  match Encoding.addNodes graph finished.order start, failure? with
  | (encoding, some failure), _ => ⟨encoding.backend, [], .error failure⟩
  | (encoding, none), some failure => ⟨encoding.backend, [], .error failure⟩
  | (encoding, none), none => askDifferent left right encoding

end Graph

end AndInverter
