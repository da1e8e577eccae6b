import AndInverter.Sat.Search.State

namespace AndInverter

/-! The numbers of variables. A search numbers variables as they come up, and takes the
number back from a variable whose value is settled, or about which there is nothing to
decide. -/

namespace Search

def reach (index : Nat) (search : Search) : Search :=
  { search with
    standings := search.standings ++
      Array.replicate (index + 1 - search.standings.size) ⟨none, none, true, false⟩ }

def widen (search : Search) : Search :=
  { search with
    pairs := (search.pairs.push #[]).push #[]
    watchers := (search.watchers.push #[]).push #[]
    trail := search.trail.widen
    units := search.units.push none
    phases := search.phases.push false
    ranking := search.ranking.widen
    owners := search.owners.push none }

def takeNumber (search : Search) : Nat × Search :=
  match search.spares.take? with
  | some (number, spares) => (number, { search with spares })
  | none => (search.owners.size, search.widen)

def install (index number : Nat) (search : Search) : Search :=
  let fixed := (search.standings[index]?.map Standing.fixed).getD none
  let search := { search with
    owners := search.owners.setIfInBounds number (some index)
    standings := search.standings.modify index ({ · with number := some number })
    ranking := search.ranking.calm number
    phases := search.phases.setIfInBounds number false
    units := search.units.setIfInBounds number (fixed.map Prod.snd) }
  match fixed with
  | some (value, _) => { search with trail := search.trail.settle (2 * number + (!value).toNat) }
  | none => { search with
      trail := search.trail.unassign (2 * number)
      ranking := search.ranking.insert number }

def numberOf (index : Nat) (search : Search) : Nat × Search :=
  let search := search.reach index
  match (search.standings[index]?.map Standing.number).getD none with
  | some number => (number, search)
  | none =>
      let (number, search) := search.takeNumber
      (number, search.install index number)

def codesOf : List SatLiteral → Search → List Nat × Search
  | [], search => ([], search)
  | literal :: others, search =>
      let (number, search) := search.numberOf literal.index
      let (codes, search) := codesOf others search
      ((2 * number + literal.negated.toNat) :: codes, search)

def release (search : Search) (number : Nat) : Search :=
  match search.owners.getD number none with
  | none => search
  | some index =>
      { search with
        owners := search.owners.setIfInBounds number none
        spares := search.spares.insert number
        standings := search.standings.modify index ({ · with number := none })
        ranking := search.ranking.erase number }

def fix (search : Search) (number : Nat) : Search :=
  match search.owners.getD number none, search.units.getD number none with
  | some index, some source =>
      { search with
        standings := search.standings.modify index ({ · with
          fixed := some (search.value (2 * number) = .holds, source)
          isIsolated := true }) }
  | _, _ => search

def isIdle (search : Search) (number : Nat) : Bool :=
  match search.owners.getD number none with
  | none => false
  | some index => search.standings[index]?.any fun standing =>
      standing.isIsolated && !standing.isAssumed

/-- Notes which variables are settled, and takes the numbers back that are not needed. -/
def releaseIdle (search : Search) : Search :=
  let search := (List.range search.owners.size).foldl fix search
  ((List.range search.owners.size).filter search.isIdle).foldl release search

end Search

end AndInverter
