import AndInverter.Graph.Basic
import AndInverter.Traversal.Marks

namespace AndInverter

/-! The fanin cone of a node: the node, what it reads, what that reads, and so
on, where only active nodes are read further. A search of the cone looks at one
node after the other, the latest one first, and ends where it meets its target. -/

structure ConeSearch where
  waiting : List Nat
  marks : Marks
deriving DecidableEq, Repr

namespace ConeSearch

def ofNode (root : Nat) (graph : Graph) : ConeSearch where
  waiting := [root]
  marks := .none graph.size

inductive Look
  | answer (found : Bool)
  | continue (after : ConeSearch)

/-- One look, at the next node that waits. An inactive node, or an empty slot, may
be the target, but nothing is looked for below it. -/
def look (graph : Graph) (target : Nat) (search : ConeSearch) : Look :=
  match search.waiting with
  | [] => .answer false
  | id :: rest =>
      if id = target then .answer true
      else if !graph.isActive id || search.marks.contains id then
        .continue { search with waiting := rest }
      else
        .continue
          { waiting := (graph.fanins id).reverse.map Literal.node ++ rest
            marks := search.marks.insert id }

def work (size : Nat) (search : ConeSearch) : Nat :=
  2 * search.marks.unmarked size + search.waiting.length

theorem work_look_lt {graph : Graph} {target : Nat} {search after : ConeSearch}
    (looked : search.look graph target = .continue after) :
    after.work graph.size < search.work graph.size := by
  unfold look at looked
  split at looked
  · cases looked
  · rename_i id rest waiting_eq
    split at looked
    · cases looked
    · split at looked
      · cases looked
        simp [work, waiting_eq]
      · rename_i entered
        cases looked
        simp only [Bool.or_eq_true, Bool.not_eq_true', not_or, Bool.not_eq_false,
          Bool.not_eq_true] at entered
        have fewer := Marks.unmarked_insert_lt (Graph.lt_size_of_isActive entered.1) entered.2
        have added := graph.length_fanins_le id
        simp only [work, waiting_eq, List.length_append, List.length_map, List.length_reverse,
          List.length_cons]
        omega

def finds (graph : Graph) (target : Nat) (search : ConeSearch) : Bool :=
  match _ : search.look graph target with
  | .answer found => found
  | .continue after => finds graph target after
termination_by search.work graph.size
decreasing_by exact work_look_lt (by assumption)

end ConeSearch

def Graph.coneContains (root target : Nat) (graph : Graph) : Bool :=
  (ConeSearch.ofNode root graph).finds graph target

end AndInverter
