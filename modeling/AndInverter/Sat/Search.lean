import AndInverter.Sat.Search.Learning
import AndInverter.Sat.Search.Loading

namespace AndInverter

/-! A search for an assignment that makes some clauses hold, under assumptions. The
search propagates, learns a clause from each conflict and decides a variable when
nothing is forced; the first decisions are the assumptions. It is not trusted: it gives
evidence for each answer, an assignment or a derivation of the empty clause. -/

namespace Schedule

def unit : Nat := 128

def advance (schedule : Schedule) : Schedule :=
  let due := schedule.due + unit * schedule.length
  if schedule.position % (2 * schedule.length) = schedule.length then
    { schedule with due, position := schedule.position + 1, length := 1 }
  else { schedule with due, length := 2 * schedule.length }

end Schedule

namespace Search

def restart (search : Search) : Search :=
  let schedule := search.schedule
  if schedule.steps ≠ schedule.due then search
  else
    let search := search.backtrack search.assumed
    if schedule.steps < schedule.limit then { search with schedule := schedule.advance }
    else
      { search.reduce with
        schedule := { schedule.advance with limit := schedule.limit + 2000 } }

def beginStep (search : Search) : Search :=
  search.restart.clearWaste

def countStep (search : Search) : Search :=
  { search with
    schedule := { search.schedule with steps := search.schedule.steps + 1 } }

def finish (verdict : Verdict) (search : Search) : Search :=
  { search.countStep with verdict }

def failureHints (assumption : Assumption) (search : Search) : List Source :=
  let set := search.trail.entries.toList.filterMap fun code =>
    match search.reason? code with
    | some (_, source) => some source
    | none => search.assumptions[search.trail.levelOf code - 1]?.map fun earlier =>
        .assumption earlier.place
  search.unitsOf #[assumption.code] ++ set ++ [.assumption assumption.place]

def skipAssumption (place : Nat) (search : Search) : Search :=
  { search with
    assumptions := (search.assumptions.swapIfInBounds place (search.assumptions.size - 1)).pop }

def modelOf (search : Search) : Array Bool :=
  search.standings.map fun standing =>
    match standing.number, standing.fixed with
    | some number, _ => search.value (2 * number) = .holds
    | none, some (value, _) => value
    | none, none => false

def takeUnset : (left : Nat) → Search → Option Nat × Search
  | 0, search => (none, search)
  | left + 1, search =>
      match search.ranking.first? with
      | none => (none, search)
      | some index =>
          let value := search.value (2 * index)
          let shorter := { search with ranking := search.ranking.erase index }
          if value = .unset then (some index, shorter) else takeUnset left shorter

/-- Decides the next assumption, or the most active variable once all assumptions hold,
which gets the value that it had last. Gives the verdict when there is nothing to
decide. -/
def decide (search : Search) : Option Verdict × Search :=
  match search.assumptions[search.trail.level]? with
  | some assumption =>
      match search.value assumption.code with
      | .holds => (none, search.skipAssumption search.trail.level)
      | .fails => (some (.failedAssumption (search.failureHints assumption)), search)
      | .unset =>
          let trail := search.trail.deepen.assign assumption.code .none
          (none, { search with trail, assumed := trail.level })
  | none =>
      match search.takeUnset search.owners.size with
      | (none, search) => (some (.model search.modelOf), search)
      | (some index, search) =>
          let code := 2 * index + (!search.phases.getD index false).toNat
          (none, { search with trail := search.trail.deepen.assign code .none })

def run : (fuel : Nat) → Search → Search
  | 0, search => search
  | fuel + 1, search =>
      match search.propagate with
      | (some failure, search) =>
          if search.trail.level = 0 then
            let search := search.settle
            search.finish (.contradiction (search.unitsOf failure.codes ++ [failure.source]))
          else run fuel (search.learn failure).countStep.beginStep
      | (none, search) =>
          match search.tidy.decide with
          | (some verdict, search) => search.finish verdict
          | (none, search) => run fuel search

/-- Bounds the number of moves of a search; no search that can be waited for gets
there. -/
def patience : Nat := 1 <<< 40

def solve (search : Search) : Search :=
  match search.verdict with
  | .unknown => search.beginStep.run patience
  | _ => search

end Search

end AndInverter
