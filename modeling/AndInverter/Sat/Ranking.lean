import AndInverter.Sat.Activity

namespace AndInverter

/-! Rankings. A ranking tells which variable a search should try next: the one that
took part in the most conflicts, where later conflicts count for more. It is a heap
of indices, ordered by activity; of equally active ones, the place in the heap decides. -/

structure Ranking where
  activities : Array Activity
  weight : Activity
  /-- the indices in the ranking, none less active than its children, which are at
  twice its place plus one and plus two -/
  heap : Array Nat
  places : Array Nat

namespace Ranking

def empty : Ranking := ⟨#[], .one, #[], #[]⟩

def widen (ranking : Ranking) : Ranking :=
  { ranking with
    activities := ranking.activities.push .zero
    places := ranking.places.push 0 }

def activity (ranking : Ranking) (index : Nat) : Activity :=
  ranking.activities.getD index .zero

def calm (index : Nat) (ranking : Ranking) : Ranking :=
  { ranking with activities := ranking.activities.setIfInBounds index .zero }

def place? (index : Nat) (ranking : Ranking) : Option Nat :=
  match ranking.places.getD index 0 with
  | 0 => none
  | place + 1 => some place

def put (place index : Nat) (ranking : Ranking) : Ranking :=
  { ranking with
    heap := ranking.heap.setIfInBounds place index
    places := ranking.places.setIfInBounds index (place + 1) }

def moveUp (index : Nat) : (steps place : Nat) → Ranking → Ranking
  | 0, place, ranking => ranking.put place index
  | steps + 1, place, ranking =>
      let above := (place - 1) / 2
      let parent := ranking.heap.getD above 0
      if 0 < place && (ranking.activity parent).isBelow (ranking.activity index) then
        moveUp index steps above (ranking.put place parent)
      else ranking.put place index

def child? (place : Nat) (ranking : Ranking) : Option Nat :=
  let left := 2 * place + 1
  let right := left + 1
  if ranking.heap.size ≤ left then none
  else if right < ranking.heap.size &&
      (ranking.activity (ranking.heap.getD left 0)).isBelow
        (ranking.activity (ranking.heap.getD right 0)) then
    some right
  else some left

def moveDown (index : Nat) : (steps place : Nat) → Ranking → Ranking
  | 0, place, ranking => ranking.put place index
  | steps + 1, place, ranking =>
      match ranking.child? place with
      | none => ranking.put place index
      | some below =>
          let other := ranking.heap.getD below 0
          if (ranking.activity index).isBelow (ranking.activity other) then
            moveDown index steps below (ranking.put place other)
          else ranking.put place index

def insert (index : Nat) (ranking : Ranking) : Ranking :=
  if (ranking.place? index).isSome then ranking
  else
    let taller := { ranking with heap := ranking.heap.push index }
    taller.moveUp index taller.heap.size (taller.heap.size - 1)

def first? (ranking : Ranking) : Option Nat :=
  ranking.heap[0]?

def last? (ranking : Ranking) : Option Nat :=
  ranking.heap.back?

def erase (index : Nat) (ranking : Ranking) : Ranking :=
  match ranking.place? index, ranking.last? with
  | some place, some last =>
      let shorter := { ranking with
        heap := ranking.heap.pop
        places := ranking.places.setIfInBounds index 0 }
      if index = last then shorter else shorter.moveDown last shorter.heap.size place
  | _, _ => ranking

/-- An activity from this one on is too great: all are scaled down. -/
def ceiling : Activity := ⟨251 <<< 23 - 1⟩

def reduction : Activity := ⟨3 <<< 23 + 1⟩

/-- What the weight grows by with each conflict, the inverse of nineteen twentieths. -/
def growth : Activity := ⟨127 <<< 23 + 441506⟩

def scale (ranking : Ranking) : Ranking :=
  { ranking with
    activities := ranking.activities.map (·.multiply reduction)
    weight := ranking.weight.multiply reduction }

def bump (index : Nat) (ranking : Ranking) : Ranking :=
  let active := (ranking.activity index).add ranking.weight
  let counted := { ranking with activities := ranking.activities.setIfInBounds index active }
  let scaled := if active.isBelow ceiling then counted else counted.scale
  match scaled.place? index with
  | none => scaled
  | some place => scaled.moveUp index (place + 1) place

def decay (ranking : Ranking) : Ranking :=
  let grown := { ranking with weight := ranking.weight.multiply growth }
  if grown.weight.isBelow ceiling then grown else grown.scale

end Ranking

end AndInverter
