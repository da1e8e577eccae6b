import AndInverter.Traversal.Marks

namespace AndInverter

/-! Depth-first walks that may fail. A walk finishes a node after all the nodes
below it, and stops at the first node or edge that it must refuse, or at a path
that meets itself. Even then it tells which nodes it had finished, in order. -/

structure Finished where
  nodes : List Nat
  marks : Marks
  contains_iff : ∀ id, marks.contains id = true ↔ id ∈ nodes

namespace Finished

def none (size : Nat) : Finished where
  nodes := []
  marks := .none size
  contains_iff := by simp

def contains (finished : Finished) (id : Nat) : Bool :=
  finished.marks.contains id

def insert (id : Nat) (finished : Finished) : Finished where
  nodes := id :: finished.nodes
  marks := finished.marks.insert id
  contains_iff other := by simp [finished.contains_iff other]

def order (finished : Finished) : List Nat :=
  finished.nodes.reverse

@[simp] theorem contains_eq_true (finished : Finished) (id : Nat) :
    finished.contains id = true ↔ id ∈ finished.nodes :=
  finished.contains_iff id

@[simp] theorem nodes_none (size : Nat) : (none size).nodes = [] := rfl

@[simp] theorem nodes_insert (id : Nat) (finished : Finished) :
    (finished.insert id).nodes = id :: finished.nodes := rfl

end Finished

structure Explorer (Failure : Type) where
  bound : Nat
  below : Nat → Except Failure (List Nat)
  refusal : Nat → Nat → Option Failure
  cycle : Nat → Failure
  lt_bound : ∀ {id : Nat} {nodes : List Nat}, below id = .ok nodes → id < bound

namespace Explorer

variable {Failure : Type}

def checkEdges (explorer : Explorer Failure) (finished : Finished) (path : List Nat) (id : Nat) :
    List Nat → Except Failure (List Nat)
  | [] => .ok []
  | child :: others =>
      match explorer.refusal id child with
      | some failure => .error failure
      | none =>
          if finished.contains child then checkEdges explorer finished path id others
          else if child ∈ path then .error (explorer.cycle child)
          else (checkEdges explorer finished path id others).map (child :: ·)

/-- Checks a node, and gives the nodes to finish before it: those whose edges were
checked last come first. `path` leads down to the node, the node first. -/
def expand (explorer : Explorer Failure) (finished : Finished) (path : List Nat) (id : Nat) :
    Except Failure (List Nat) := do
  let nodes ← explorer.below id
  return (← explorer.checkEdges finished path id nodes).reverse

def visitEach (visit : Nat → Finished → Finished × Option Failure) :
    List Nat → Finished → Finished × Option Failure
  | [], finished => (finished, none)
  | id :: others, finished =>
      match visit id finished with
      | (finished, some failure) => (finished, some failure)
      | (finished, none) => visitEach visit others finished

/-- Finishes a node after everything below it. `path` leads down to the node. The
depth bounds how much further a path may lead; a path that does not meet itself
has at most as many nodes as there are below the bound. -/
def visit (explorer : Explorer Failure) :
    (depth : Nat) → (path : List Nat) → Nat → Finished → Finished × Option Failure
  | 0, _, id, finished => (finished, some (explorer.cycle id))
  | depth + 1, path, id, finished =>
      if finished.contains id then (finished, none)
      else
        match explorer.expand finished (id :: path) id with
        | .error failure => (finished, some failure)
        | .ok children =>
            match visitEach (visit explorer depth (id :: path)) children finished with
            | (finished, some failure) => (finished, some failure)
            | (finished, none) => (finished.insert id, none)

def exploreFrom (explorer : Explorer Failure) (roots : List Nat) (finished : Finished) :
    Finished × Option Failure :=
  visitEach (explorer.visit (explorer.bound + 1) []) roots finished

def explore (explorer : Explorer Failure) (roots : List Nat) : Finished × Option Failure :=
  explorer.exploreFrom roots (.none explorer.bound)

end Explorer

end AndInverter
