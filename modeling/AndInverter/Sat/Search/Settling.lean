import AndInverter.Sat.Search.Numbering

namespace AndInverter

/-! Settling. What is set at level zero has to hold in every assignment: the clause of
that literal alone is derived, the clauses with that literal are dropped, and its
negation is dropped from the others. -/

namespace Search

def settleEntry (search : Search) (code : Nat) : Search :=
  let (source?, search) := match search.trail.reasonOf code with
    | .none => (none, search)
    | .unit source => (some source, search)
    | .pair other source =>
        let (source, search) := search.derive #[code] (search.unitsOf #[other] ++ [source])
        (some source, search)
    | .long number =>
        let others := (search.clauses.getD number #[]).filter (· ≠ code)
        let source := search.sources.getD number (.step 0)
        let (source, search) := search.derive #[code] (search.unitsOf others ++ [source])
        (some source, search)
  { search with
    units := search.units.setIfInBounds (code / 2) source?
    trail := search.trail.settle code }

def settle (search : Search) : Search :=
  let search := search.trail.entries.foldl settleEntry search
  { search with propagated := 0, trail := { search.trail with entries := #[] } }

/-- Sets a literal again if it is settled, so that it is propagated once more. -/
def unsettle (search : Search) (code : Nat) : Search :=
  match search.units.getD (code / 2) none with
  | none => search
  | some source =>
      { search with
        units := search.units.setIfInBounds (code / 2) none
        phases := search.phases.setIfInBounds (code / 2) (code % 2 = 0)
        trail := search.trail.assign code (.unit source) }

def simplifyPairs (search : Search) : Search :=
  let trail := search.trail
  { search with
    pairs := search.pairs.mapIdx fun code pairs =>
      if trail.value code = .unset then
        pairs.filter fun pair => trail.value pair.other = .unset
      else #[] }

def simplifyLong (search : Search) (number : Nat) : Search :=
  let clause := search.clauses.getD number #[]
  let unset := clause.filter fun code => search.value code = .unset
  if clause.any fun code => search.value code = .holds then search.discard clause
  else if unset.size = clause.size then { search with kept := search.kept.push number }
  else
    let source := search.sources.getD number (.step 0)
    let (source, search) := search.derive unset (search.unitsOf
      (clause.filter fun code => search.value code ≠ .unset) ++ [source])
    if unset.size = 2 then
      (search.discard clause).addPair (unset.getD 0 0) (unset.getD 1 0) source
    else
      { search with
        clauses := search.clauses.setIfInBounds number unset
        sources := search.sources.setIfInBounds number source
        kept := search.kept.push number }

def simplify (search : Search) : Search :=
  let kept := search.kept
  (kept.foldl simplifyLong { search.simplifyPairs with kept := #[] }).attachAll.releaseIdle

def tidy (search : Search) : Search :=
  if search.trail.level = 0 && !search.trail.entries.isEmpty then search.settle.simplify
  else search

end Search

end AndInverter
