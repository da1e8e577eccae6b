import AndInverter.Sat.Ranking
import AndInverter.Sat.Search.Spares
import AndInverter.Sat.Search.Trail

namespace AndInverter

/-! The state of a search for an assignment. It lasts from one question to the next: a
search keeps what it learned, which variables were active and what values they had. -/

structure Pair where
  other : Nat
  source : Source

structure Watch where
  number : Nat
  /-- a literal of the clause, which needs no look while this one holds -/
  blocker : Nat

structure Standing where
  number : Option Nat
  fixed : Option (Bool × Source)
  isIsolated : Bool
  isAssumed : Bool

structure Assumption where
  code : Nat
  place : Nat

inductive Verdict
  | unknown
  | model (values : Array Bool)
  | contradiction (hints : List Source)
  | failedAssumption (hints : List Source)

/-- When a search starts again from the assumptions: after numbers of steps that are as
one, one, two, one, one, two, four and so on. -/
structure Schedule where
  steps : Nat := 0
  due : Nat := 0
  position : Nat := 1
  length : Nat := 1
  limit : Nat := 15000

structure Search where
  /-- the clauses of three literals or more, by number; the first two are watched -/
  clauses : Array (Array Nat)
  sources : Array Source
  /-- by clause: how many levels its literals had when it was learned, and zero for a
  clause that was given -/
  spreads : Array Nat
  kept : Array Nat
  room : Nat
  waste : Nat
  pairs : Array (Array Pair)
  watchers : Array (Array Watch)
  trail : Trail
  propagated : Nat
  units : Array (Option Source)
  phases : Array Bool
  ranking : Ranking
  owners : Array (Option Nat)
  spares : Spares
  standings : Array Standing
  assumptions : Array Assumption
  assumed : Nat
  schedule : Schedule
  verdict : Verdict
  steps : List Derivation.Step
  derived : Nat

namespace Search

def empty : Search where
  clauses := #[]
  sources := #[]
  spreads := #[]
  kept := #[]
  room := 0
  waste := 0
  pairs := #[]
  watchers := #[]
  trail := .empty
  propagated := 0
  units := #[]
  phases := #[]
  ranking := .empty
  owners := #[]
  spares := .empty
  standings := #[]
  assumptions := #[]
  assumed := 0
  schedule := {}
  verdict := .unknown
  steps := []
  derived := 0

def value (search : Search) (code : Nat) : Value :=
  search.trail.value code

def assign (code : Nat) (reason : Reason) (search : Search) : Search :=
  { search with trail := search.trail.assign code reason }

def literalOf (search : Search) (code : Nat) : SatLiteral :=
  ⟨(search.owners.getD (code / 2) none).getD 0, code % 2 = 1⟩

def derive (codes : Array Nat) (hints : List Source) (search : Search) : Source × Search :=
  (.step search.derived,
    { search with
      steps := ⟨codes.toList.map search.literalOf, hints⟩ :: search.steps
      derived := search.derived + 1 })

def unit? (search : Search) (code : Nat) : Option Source :=
  match search.units.getD (code / 2) none, search.trail.reasonOf code with
  | some source, _ => some source
  | none, .unit source => some source
  | none, _ => none

def unitsOf (search : Search) (codes : Array Nat) : List Source :=
  codes.toList.filterMap search.unit?

def addPair (left right : Nat) (source : Source) (search : Search) : Search :=
  { search with
    pairs := (search.pairs.modify left (·.push ⟨right, source⟩)).modify right
      (·.push ⟨left, source⟩) }

def attach (search : Search) (number : Nat) : Search :=
  let clause := search.clauses.getD number #[]
  let first := clause.getD 0 0
  let second := clause.getD 1 0
  { search with
    watchers := (search.watchers.modify first (·.push ⟨number, second⟩)).modify second
      (·.push ⟨number, first⟩) }

def attachAll (search : Search) : Search :=
  search.kept.foldl attach
    { search with watchers := Array.replicate search.watchers.size #[] }

def roomOf (codes : Array Nat) : Nat :=
  codes.size + 3

def discard (codes : Array Nat) (search : Search) : Search :=
  { search with waste := search.waste + roomOf codes }

/-- Clears the waste away, once more than half of the room is waste. The clauses in use
watch anew then. -/
def clearWaste (search : Search) : Search :=
  if search.room < 2 * search.waste then
    { search.attachAll with
      room := search.kept.foldl (fun room number =>
        room + roomOf (search.clauses.getD number #[])) 0
      waste := 0 }
  else search

def addLong (codes : Array Nat) (source : Source) (spread : Nat) (search : Search) :
    Nat × Search :=
  let number := search.clauses.size
  let search := { search with
    clauses := search.clauses.push codes
    sources := search.sources.push source
    spreads := search.spreads.push spread
    kept := search.kept.push number
    room := search.room + roomOf codes }
  (number, search.attach number)

def retract (limit : Nat) (search : Search) : Search :=
  let taken := search.trail.entries.extract limit search.trail.entries.size
  let search := { search with
    trail := { search.trail with entries := search.trail.entries.shrink limit } }
  taken.foldl (fun search code => { search with
    trail := search.trail.unassign code
    phases := search.phases.setIfInBounds (code / 2) (code % 2 = 0)
    ranking := search.ranking.insert (code / 2) }) search

def backtrack (level : Nat) (search : Search) : Search :=
  match search.trail.limits[level]? with
  | none => search
  | some limit =>
      let search := search.retract limit
      { search with
        propagated := limit
        trail := { search.trail with limits := search.trail.limits.shrink level } }

def rewind (search : Search) : Search :=
  { search.backtrack 0 with assumed := 0 }

end Search

end AndInverter
