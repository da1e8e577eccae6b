import AndInverter.Sat.Search.State

namespace AndInverter

/-! Unit propagation: when all literals of a clause but one fail, the last one is set. A
clause of two literals is looked at when one of them fails; a longer clause watches two
of its literals, the first ones, and is looked at only when one of these fails. -/

structure Failure where
  codes : Array Nat
  source : Source

namespace Search

def forcePairs (failed : Nat) (pairs : Array Pair) :
    (left : Nat) → Search → Option Failure × Search
  | 0, search => (none, search)
  | left + 1, search =>
      match pairs[pairs.size - (left + 1)]? with
      | none => (none, search)
      | some pair =>
          match search.value pair.other with
          | .fails => (some ⟨#[pair.other, failed], pair.source⟩, search)
          | .holds => forcePairs failed pairs left search
          | .unset =>
              forcePairs failed pairs left
                (search.assign pair.other (.pair failed pair.source))

def order (number first second : Nat) (search : Search) : Search :=
  if (search.clauses.getD number #[]).getD 0 0 = first then search
  else
    { search with
      clauses := search.clauses.modify number fun clause =>
        (clause.setIfInBounds 0 first).setIfInBounds 1 second }

def unfailed? (trail : Trail) (clause : Array Nat) : (left : Nat) → Option Nat
  | 0 => none
  | left + 1 =>
      let place := clause.size - (left + 1)
      if trail.value (clause.getD place 0) = .fails then unfailed? trail clause left
      else some place

def rewatch (watch : Watch) (failed place code : Nat) (search : Search) : Search :=
  { search with
    clauses := search.clauses.modify watch.number fun clause =>
      ((clause.setIfInBounds 0 watch.blocker).setIfInBounds 1 code).setIfInBounds place failed
    watchers := search.watchers.modify code (·.push watch) }

/-- Looks at the last ones of the clauses that watch a literal that fails. Gives the
clauses that still watch it, and the clause all of whose literals fail if there is
one. -/
def visit (failed : Nat) (watching : Array Watch) :
    (left : Nat) → (kept : Array Watch) → Search → Array Watch × Option Failure × Search
  | 0, kept, search => (kept, none, search)
  | left + 1, kept, search =>
      let place := watching.size - (left + 1)
      match watching[place]? with
      | none => (kept, none, search)
      | some watch =>
          if search.value watch.blocker = .holds then
            visit failed watching left (kept.push watch) search
          else
            let clause := search.clauses.getD watch.number #[]
            let head := clause.getD 0 0
            let other := if head = failed then clause.getD 1 0 else head
            let looked : Watch := ⟨watch.number, other⟩
            match search.value other with
            | .holds =>
                visit failed watching left (kept.push looked)
                  (search.order watch.number other failed)
            | value =>
                match unfailed? search.trail clause (clause.size - 2) with
                | some spot =>
                    let code := clause.getD spot 0
                    visit failed watching left kept (search.rewatch looked failed spot code)
                | none =>
                    let search := search.order watch.number other failed
                    let kept := kept.push looked
                    if value = .fails then
                      let failure : Failure :=
                        ⟨search.clauses.getD watch.number #[],
                          search.sources.getD watch.number (.step 0)⟩
                      (kept ++ watching.extract (place + 1) watching.size, some failure, search)
                    else
                      visit failed watching left kept (search.assign other (.long watch.number))

def look (failed : Nat) (search : Search) : Option Failure × Search :=
  let pairs := search.pairs.getD failed #[]
  match search.forcePairs failed pairs pairs.size with
  | (some failure, search) => (some failure, search)
  | (none, search) =>
      let watching := search.watchers.getD failed #[]
      let search := { search with watchers := search.watchers.setIfInBounds failed #[] }
      let (kept, failure?, search) :=
        search.visit failed watching watching.size (.emptyWithCapacity watching.size)
      (failure?, { search with watchers := search.watchers.setIfInBounds failed kept })

def propagateUpTo : (count : Nat) → Search → Option Failure × Search
  | 0, search => (none, search)
  | count + 1, search =>
      match search.trail.entries[search.propagated]? with
      | none => (none, search)
      | some code =>
          match { search with propagated := search.propagated + 1 }.look (opposite code) with
          | (some failure, search) => (some failure, search)
          | (none, search) => propagateUpTo count search

def propagate (search : Search) : Option Failure × Search :=
  search.propagateUpTo (search.owners.size + 1)

end Search

end AndInverter
