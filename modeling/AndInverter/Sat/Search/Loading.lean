import AndInverter.Sat.Search.Settling

namespace AndInverter

/-! What a search is told: clauses and assumptions. -/

namespace Search

def insertCode (code : Nat) : List Nat → List Nat
  | [] => [code]
  | head :: tail =>
      if code < head then code :: head :: tail
      else if code = head then head :: tail
      else head :: insertCode code tail

def connect (codes : List Nat) (search : Search) : Search :=
  { search with
    standings := codes.foldl (fun standings code =>
      match search.owners.getD (code / 2) none with
      | none => standings
      | some index => standings.modify index ({ · with isIsolated := false }))
      search.standings }

def addGiven (unset failing : List Nat) (source : Source) (search : Search) : Search :=
  match unset, failing with
  | [], [] => { search with verdict := .contradiction [source] }
  | [], [code] =>
      { search with verdict := .contradiction (search.unitsOf #[code] ++ [source]) }
  | [code], [] => search.assign code (.unit source)
  | _, _ =>
      match unset ++ failing with
      | [left, right] => search.addPair left right source
      | codes => (search.addLong codes.toArray source 0).2

/-- Adds a clause, given its place. Once the clauses contradict each other, no more are
taken; that the assumptions fail is not put in question by more clauses. The literals of
the clause that fail, up to one that holds, are set once more, to be seen when the search
goes on. -/
def addClause (clause : Clause) (place : Nat) (search : Search) : Search :=
  match search.verdict with
  | .contradiction _ => search
  | verdict =>
      let search := { search.rewind with
        verdict := match verdict with
          | .model _ => .unknown
          | other => other }
      let (codes, search) := search.codesOf clause
      let codes := codes.foldl (fun sorted code => insertCode code sorted) []
      if codes.any fun code => codes.contains (opposite code) then search
      else
        let search := if codes.length < 2 then search else search.connect codes
        let looked := codes.takeWhile fun code => search.value code ≠ .holds
        let failing := looked.filter fun code => search.value code = .fails
        let search := failing.foldl (fun search code => search.unsettle (opposite code)) search
        if looked.length < codes.length then search
        else
          search.addGiven (codes.filter fun code => search.value code = .unset) failing
            (.clause place)

def markAssumed (isAssumed : Bool) (codes : List Nat) (search : Search) : Search :=
  { search with
    standings := codes.foldl (fun standings code =>
      match search.owners.getD (code / 2) none with
      | none => standings
      | some index => standings.modify index ({ · with isAssumed }))
      search.standings }

def assume (literals : List SatLiteral) (search : Search) : Search :=
  let search := { search.rewind with
    verdict := match search.verdict with
      | .contradiction hints => .contradiction hints
      | _ => .unknown }
  let search := search.markAssumed false (search.assumptions.toList.map Assumption.code)
  let (codes, search) := search.codesOf literals
  { search.markAssumed true codes with
    assumptions := codes.toArray.mapIdx fun place code => ⟨code, place⟩ }

end Search

end AndInverter
