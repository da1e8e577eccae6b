import AndInverter.Graph.Basic
import AndInverter.Traversal.Marks

namespace AndInverter

/-! A post-order traversal of the active nodes, fanins first, that yields one
node at a time. The graph is read anew at every move, so it may change between
two nodes: a node is expanded with the fanins that it has by then, and a node
that became inactive while it waited is passed over. -/

/-- A task of the traversal: to look below a node, or to yield it once all below
has been yielded. -/
inductive Task
  | enter (id : Nat)
  | leave (id : Nat)
deriving DecidableEq, Repr

structure PostOrder where
  tasks : List Task
  marks : Marks
  starts : List Nat
deriving DecidableEq, Repr

namespace PostOrder

def ofNode (start : Nat) (graph : Graph) : PostOrder where
  tasks := [.enter start]
  marks := .none graph.size
  starts := []

def ofOutputs (graph : Graph) : PostOrder where
  tasks := []
  marks := .none graph.size
  starts := graph.outputs

def reset (graph : Graph) (traversal : PostOrder) : PostOrder where
  tasks := []
  marks := traversal.marks.reset graph.size
  starts := graph.outputs

inductive Move
  | finished
  | yield (id : Nat) (after : PostOrder)
  | continue (after : PostOrder)

/-- The tasks that looking below a node leaves: its unmarked fanins, in order,
then the node itself. -/
def expansion (graph : Graph) (marks : Marks) (id : Nat) : List Task :=
  let waiting := (graph.fanins id).filter fun fanin => !marks.contains fanin.node
  waiting.map (fun fanin => Task.enter fanin.node) ++ [.leave id]

def move (graph : Graph) (traversal : PostOrder) : Move :=
  match traversal.tasks with
  | .leave id :: rest =>
      let after := { traversal with tasks := rest }
      if graph.isActive id then .yield id after else .continue after
  | .enter id :: rest =>
      if !graph.isActive id || traversal.marks.contains id then
        .continue { traversal with tasks := rest }
      else
        let marks := traversal.marks.insert id
        .continue { traversal with tasks := expansion graph marks id ++ rest, marks := marks }
  | [] =>
      match traversal.starts with
      | [] => .finished
      | start :: others => .continue { traversal with tasks := [.enter start], starts := others }

def work (size : Nat) (traversal : PostOrder) : Nat :=
  4 * traversal.marks.unmarked size + traversal.tasks.length + 2 * traversal.starts.length

theorem work_le (size : Nat) (traversal : PostOrder) :
    traversal.work size ≤ 4 * size + traversal.tasks.length + 2 * traversal.starts.length := by
  have unmarked := traversal.marks.unmarked_le size
  rw [work]
  omega

private theorem length_expansion_le (graph : Graph) (marks : Marks) (id : Nat) :
    (expansion graph marks id).length ≤ 3 := by
  have fanins_le := graph.length_fanins_le id
  have filtered_le := List.length_filter_le
    (fun fanin : Literal => !marks.contains fanin.node) (graph.fanins id)
  simp only [expansion, List.length_append, List.length_map, List.length_singleton]
  omega

theorem work_continue_lt {graph : Graph} {traversal after : PostOrder}
    (moved : traversal.move graph = .continue after) :
    after.work graph.size < traversal.work graph.size := by
  unfold move at moved
  split at moved
  · rename_i id rest tasks_eq
    simp only at moved
    split at moved
    · cases moved
    · cases moved
      simp [work, tasks_eq]
  · rename_i id rest tasks_eq
    split at moved
    · cases moved
      simp [work, tasks_eq]
    · rename_i entered
      cases moved
      simp only [Bool.or_eq_true, Bool.not_eq_true', not_or, Bool.not_eq_false,
        Bool.not_eq_true] at entered
      have fewer := Marks.unmarked_insert_lt (Graph.lt_size_of_isActive entered.1) entered.2
      have added := length_expansion_le graph (traversal.marks.insert id) id
      simp only [work, tasks_eq, List.length_append, List.length_cons]
      omega
  · rename_i tasks_eq
    split at moved
    · cases moved
    · rename_i start others starts_eq
      cases moved
      simp [work, tasks_eq, starts_eq]
      omega

theorem work_yield_lt {graph : Graph} {traversal after : PostOrder} {id : Nat}
    (moved : traversal.move graph = .yield id after) :
    after.work graph.size < traversal.work graph.size := by
  unfold move at moved
  split at moved
  · rename_i tasks_eq
    simp only at moved
    split at moved
    · cases moved
      simp [work, tasks_eq]
    · cases moved
  · split at moved <;> cases moved
  · split at moved <;> cases moved

def next (graph : Graph) (traversal : PostOrder) : Option Nat × PostOrder :=
  match _ : traversal.move graph with
  | .finished => (none, traversal)
  | .yield id after => (some id, after)
  | .continue after => next graph after
termination_by traversal.work graph.size
decreasing_by exact work_continue_lt (by assumption)

theorem work_next_lt {graph : Graph} {traversal after : PostOrder} {id : Nat}
    (found : traversal.next graph = (some id, after)) :
    after.work graph.size < traversal.work graph.size := by
  induction traversal using next.induct graph with
  | case1 traversal moved =>
      rw [next] at found
      split at found <;> simp_all
  | case2 traversal yielded rest moved =>
      rw [next] at found
      split at found
      · simp at found
      · simp only [Prod.mk.injEq, Option.some.injEq] at found
        obtain ⟨rfl, rfl⟩ := found
        rename_i same
        exact work_yield_lt same
      · simp_all
  | case3 traversal rest moved induction =>
      rw [next] at found
      split at found
      · simp at found
      · simp_all
      · rename_i continued same
        rw [moved] at same
        cases same
        exact Nat.lt_trans (induction found) (work_continue_lt moved)

def toList (graph : Graph) (traversal : PostOrder) : List Nat :=
  match _ : traversal.next graph with
  | (none, _) => []
  | (some id, after) => id :: toList graph after
termination_by traversal.work graph.size
decreasing_by exact work_next_lt (by assumption)

end PostOrder

namespace Graph

def order (graph : Graph) : List Nat :=
  (PostOrder.ofOutputs graph).toList graph

def orderBelow (start : Nat) (graph : Graph) : List Nat :=
  (PostOrder.ofNode start graph).toList graph

end Graph

end AndInverter
