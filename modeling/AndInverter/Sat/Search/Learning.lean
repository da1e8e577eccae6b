import AndInverter.Sat.Search.Propagation

namespace AndInverter

/-! Learning from a conflict. The clause that fails is resolved with the clauses that
forced its literals, from the last entry of the trail down, until only one literal of
the last level is left: the result would have forced the opposite of that literal at an
earlier level. Literals that the others force are left out of it. -/

namespace Search

def reason? (search : Search) (code : Nat) : Option (Array Nat × Source) :=
  match search.trail.reasonOf code with
  | .none => none
  | .unit source => some (#[], source)
  | .pair other source => some (#[other], source)
  | .long number =>
      let clause := search.clauses.getD number #[]
      some (clause.extract 1 clause.size, search.sources.getD number (.step 0))

end Search

structure Conflict where
  seen : Array Bool
  touched : Array Nat
  pending : Nat
  earlier : Array Nat
  resolved : List Source

namespace Conflict

def joinLiteral (search : Search) (conflict : Conflict) (code : Nat) : Conflict :=
  let ⟨seen, touched, pending, earlier, resolved⟩ := conflict
  let index := code / 2
  let level := search.trail.levelOf code
  if level = 0 || seen.getD index true then ⟨seen, touched, pending, earlier, resolved⟩
  else
    let seen := seen.setIfInBounds index true
    let touched := touched.push index
    if level = search.trail.level then ⟨seen, touched, pending + 1, earlier, resolved⟩
    else ⟨seen, touched, pending, earlier.push code, resolved⟩

def join (search : Search) (codes : Array Nat) (source : Source) (conflict : Conflict) :
    Conflict :=
  codes.foldl (joinLiteral search) { conflict with resolved := source :: conflict.resolved }

/-- Resolves until one literal of the last level is left, and gives the entry of its
variable. -/
def resolve (search : Search) : (place : Nat) → Conflict → Nat × Conflict
  | 0, conflict => (0, conflict)
  | place + 1, conflict =>
      let code := search.trail.entries.getD place 0
      let ⟨seen, touched, pending, earlier, resolved⟩ := conflict
      if !seen.getD (code / 2) false then
        resolve search place ⟨seen, touched, pending, earlier, resolved⟩
      else
        let left : Conflict :=
          ⟨seen.setIfInBounds (code / 2) false, touched, pending - 1, earlier, resolved⟩
        match pending - 1, search.reason? code with
        | 0, _ | _, none => (code, left)
        | _ + 1, some (others, source) => resolve search place (join search others source left)

def clause (code : Nat) (conflict : Conflict) : Array Nat :=
  (conflict.earlier.push (opposite code)).swapIfInBounds 0 conflict.earlier.size

end Conflict

structure Trace where
  seen : Array Bool
  met : List Nat
  pending : List Nat
  isLost : Bool

namespace Trace

/-- Follows one literal of a clause. A decision that is not in the clause is the end, and
so is a level of which no literal is in the clause. -/
def followLiteral (search : Search) (levels : Array Bool) (trace : Trace) (code : Nat) : Trace :=
  let ⟨seen, met, pending, isLost⟩ := trace
  let index := code / 2
  let level := search.trail.levelOf code
  if isLost || level = 0 || seen.getD index true then ⟨seen, met, pending, isLost⟩
  else
    match search.trail.reasonOf code with
    | .none | .unit _ => ⟨seen, met, pending, true⟩
    | _ =>
        if levels.getD level false then
          ⟨seen.setIfInBounds index true, index :: met, index :: pending, false⟩
        else ⟨seen, met, pending, true⟩

def follow (search : Search) (levels : Array Bool) : (fuel : Nat) → Trace → Trace
  | 0, trace => { trace with isLost := true }
  | fuel + 1, trace =>
      match trace.isLost, trace.pending with
      | true, _ | _, [] => trace
      | false, index :: others =>
          let codes := ((search.reason? (2 * index)).map Prod.fst).getD #[]
          follow search levels fuel
            (codes.foldl (followLiteral search levels) { trace with pending := others })

end Trace

structure Minimization where
  seen : Array Bool
  kept : Array Nat
  used : List Nat

namespace Minimization

def step (search : Search) (levels : Array Bool) (state : Minimization) (code : Nat) :
    Minimization :=
  match search.trail.reasonOf code with
  | .none | .unit _ => { state with kept := state.kept.push code }
  | _ =>
      let ⟨seen, kept, used⟩ := state
      let index := code / 2
      let trace :=
        Trace.follow search levels (search.owners.size + 1) ⟨seen, [], [index], false⟩
      if trace.isLost then
        ⟨trace.met.foldl (fun seen index => seen.setIfInBounds index false) trace.seen,
          kept.push code, used⟩
      else ⟨trace.seen, kept, index :: (trace.met ++ used)⟩

end Minimization

namespace Search

/-- Leaves literals out of a clause that the others force. Gives the clauses that show
it, in the order of the trail. -/
def minimize (seen : Array Bool) (clause : Array Nat) (search : Search) :
    Array Nat × List Source :=
  let levels := clause.foldl
    (fun levels code => levels.setIfInBounds (search.trail.levelOf code) true)
    (Array.replicate (search.trail.level + 1) false)
  let result := clause.foldl (Minimization.step search levels)
    ⟨seen, clause.extract 0 1, []⟩ 1
  let used := result.used.map fun index => (search.trail.places.getD index 0, index)
  let sorted := used.mergeSort fun left right => left.1 ≤ right.1
  (result.kept, sorted.filterMap fun place => (search.reason? (2 * place.2)).map Prod.snd)

def sortSecond (search : Search) (clause : Array Nat) : Array Nat :=
  (List.range clause.size).foldl (fun clause place =>
    if 1 < place && search.trail.levelOf (clause.getD 1 0) <
        search.trail.levelOf (clause.getD place 0) then
      clause.swapIfInBounds 1 place
    else clause) clause

def bumpAll (indices : Array Nat) (search : Search) : Search :=
  { search with ranking := (indices.foldl (fun ranking index => ranking.bump index)
      search.ranking).decay }

def spreadOf (trail : Trail) (codes : Array Nat) : Nat :=
  ((codes.toList.map trail.levelOf).eraseDups).length

def addLearned (clause : Array Nat) (spread : Nat) (source : Source) (search : Search) : Search :=
  let first := clause.getD 0 0
  match clause.size with
  | 0 | 1 => search.assign first (.unit source)
  | 2 =>
      let second := clause.getD 1 0
      (search.addPair first second source).assign first (.pair second source)
  | _ =>
      let (number, search) := search.addLong clause source spread
      search.assign first (.long number)

def learn (failure : Failure) (search : Search) : Search :=
  let start : Conflict :=
    { seen := Array.replicate search.owners.size false, touched := #[], pending := 0,
      earlier := #[], resolved := [] }
  let (code, conflict) :=
    (start.join search failure.codes failure.source).resolve search search.trail.entries.size
  let (kept, hints) := search.minimize conflict.seen (conflict.clause code)
  let clause := search.sortSecond kept
  let level := if clause.size < 2 then 0 else search.trail.levelOf (clause.getD 1 0)
  let spread := spreadOf search.trail clause
  let (source, search) := search.derive clause (hints ++ conflict.resolved)
  ((search.bumpAll conflict.touched).backtrack level).addLearned clause spread source

def droppable (search : Search) : List Nat :=
  let learned := search.kept.toList.filter fun number => 2 < search.spreads.getD number 0
  learned.mergeSort fun left right =>
    search.spreads.getD right 0 ≤ search.spreads.getD left 0

def reduce (search : Search) : Search :=
  let candidates := search.droppable
  let dropped := (candidates.take (candidates.length / 2)).foldl
    (fun marks number => marks.insert number) (Marks.none search.clauses.size)
  let search := search.kept.foldl (fun search number =>
    if dropped.contains number then search.discard (search.clauses.getD number #[])
    else { search with kept := search.kept.push number }) { search with kept := #[] }
  search.attachAll

end Search

end AndInverter
