import AndInverter.Traversal.PostOrder

namespace AndInverter.PostOrder

/-! What the moves of a traversal do, and what a run of moves yields. What waits below the
tasks of a traversal, or behind its starts, makes no difference to it until they are done. -/

variable {graph : Graph} {traversal middle after : PostOrder} {ids : List Nat}

/-! ## Moves -/

theorem of_move_eq_yield {id : Nat} (moved : traversal.move graph = .yield id after) :
    ∃ rest, traversal.tasks = .leave id :: rest ∧ graph.isActive id = true ∧
      after = { traversal with tasks := rest } := by
  rw [move] at moved
  split at moved
  · rename_i other rest tasks_eq
    simp only at moved
    split at moved
    · rename_i active
      cases moved
      exact ⟨rest, tasks_eq, active, rfl⟩
    · cases moved
  · split at moved <;> cases moved
  · split at moved <;> cases moved

inductive Continues (graph : Graph) (traversal : PostOrder) : PostOrder → Prop
  | drop {id : Nat} {rest : List Task} (tasks_eq : traversal.tasks = .leave id :: rest)
      (inactive : graph.isActive id = false) :
      Continues graph traversal { traversal with tasks := rest }
  | skip {id : Nat} {rest : List Task} (tasks_eq : traversal.tasks = .enter id :: rest)
      (needless : graph.isActive id = true → traversal.marks.contains id = true) :
      Continues graph traversal { traversal with tasks := rest }
  | expand {id : Nat} {rest : List Task} (tasks_eq : traversal.tasks = .enter id :: rest)
      (active : graph.isActive id = true) (fresh : traversal.marks.contains id = false) :
      Continues graph traversal
        { traversal with
          tasks := expansion graph (traversal.marks.insert id) id ++ rest
          marks := traversal.marks.insert id }
  | start {id : Nat} {others : List Nat} (tasks_eq : traversal.tasks = [])
      (starts_eq : traversal.starts = id :: others) :
      Continues graph traversal { traversal with tasks := [.enter id], starts := others }

theorem of_move_eq_continue (moved : traversal.move graph = .continue after) :
    Continues graph traversal after := by
  rw [move] at moved
  split at moved
  · rename_i id rest tasks_eq
    simp only at moved
    split at moved
    · cases moved
    · rename_i inactive
      cases moved
      exact .drop tasks_eq (Bool.not_eq_true _ ▸ inactive)
  · rename_i id rest tasks_eq
    split at moved
    · rename_i needless
      cases moved
      apply Continues.skip tasks_eq
      intro active
      simpa [active] using needless
    · rename_i entered
      cases moved
      simp only [Bool.or_eq_true, Bool.not_eq_true', not_or, Bool.not_eq_false,
        Bool.not_eq_true] at entered
      exact .expand tasks_eq entered.1 entered.2
  · rename_i tasks_eq
    split at moved
    · cases moved
    · rename_i id others starts_eq
      cases moved
      exact .start tasks_eq starts_eq

theorem contains_of_move_eq_continue (moved : traversal.move graph = .continue after) {id : Nat}
    (marked : traversal.marks.contains id = true) : after.marks.contains id = true := by
  cases of_move_eq_continue moved with
  | drop
  | skip
  | start => exact marked
  | expand => exact Marks.contains_insert_of_contains marked _

theorem of_move_eq_finished (moved : traversal.move graph = .finished) :
    traversal.tasks = [] ∧ traversal.starts = [] := by
  rw [move] at moved
  split at moved
  · simp only at moved
    split at moved <;> cases moved
  · split at moved <;> cases moved
  · rename_i tasks_eq
    split at moved
    · rename_i starts_eq
      exact ⟨tasks_eq, starts_eq⟩
    · cases moved

theorem next_eq (graph : Graph) (traversal : PostOrder) :
    traversal.next graph = match traversal.move graph with
      | .finished => (none, traversal)
      | .yield id after => (some id, after)
      | .continue after => after.next graph := by
  rw [next]
  split <;> simp_all

theorem toList_eq (graph : Graph) (traversal : PostOrder) :
    traversal.toList graph = match traversal.move graph with
      | .finished => []
      | .yield id after => id :: after.toList graph
      | .continue after => after.toList graph := by
  conv => lhs; rw [toList]
  rw [next_eq]
  cases moved : traversal.move graph with
  | finished => rfl
  | yield id after => rfl
  | «continue» after =>
      simp only
      conv => rhs; rw [toList]

theorem expansion_append (graph : Graph) (marks : Marks) (id : Nat) (rest : List Task) :
    expansion graph marks id ++ rest =
      (((graph.fanins id).filter fun fanin => !marks.contains fanin.node).map
        fun fanin => Task.enter fanin.node) ++ .leave id :: rest := by
  rw [expansion, List.append_assoc]
  rfl

/-! ## Runs -/

inductive Runs (graph : Graph) : PostOrder → List Nat → PostOrder → Prop
  | refl (traversal : PostOrder) : Runs graph traversal [] traversal
  | yield {traversal middle after : PostOrder} {id : Nat} {ids : List Nat}
      (moved : traversal.move graph = .yield id middle) (rest : Runs graph middle ids after) :
      Runs graph traversal (id :: ids) after
  | continue {traversal middle after : PostOrder} {ids : List Nat}
      (moved : traversal.move graph = .continue middle) (rest : Runs graph middle ids after) :
      Runs graph traversal ids after

def Over (traversal : PostOrder) : Prop :=
  traversal.tasks = [] ∧ traversal.starts = []

/-- What moves keep that yield nothing holds as a call comes to the move that yields. -/
theorem exists_move_of_next_eq_some {Holds : PostOrder → Prop} {id : Nat}
    (kept : ∀ {before after}, Holds before → before.move graph = .continue after → Holds after)
    (holds : Holds traversal) (found : traversal.next graph = (some id, after)) :
    ∃ middle, Holds middle ∧ middle.move graph = .yield id after := by
  induction traversal using next.induct graph with
  | case1 traversal moved =>
      rw [next_eq, moved] at found
      cases found
  | case2 traversal other rest moved =>
      rw [next_eq, moved] at found
      cases found
      exact ⟨traversal, holds, moved⟩
  | case3 traversal rest moved induction =>
      rw [next_eq, moved] at found
      exact induction (kept holds moved) found

theorem over_of_next_eq_none {Holds : PostOrder → Prop}
    (kept : ∀ {before after}, Holds before → before.move graph = .continue after → Holds after)
    (holds : Holds traversal) (finished : traversal.next graph = (none, after)) :
    Holds after ∧ after.Over := by
  induction traversal using next.induct graph with
  | case1 traversal moved =>
      rw [next_eq, moved] at finished
      cases finished
      exact ⟨holds, of_move_eq_finished moved⟩
  | case2 traversal other rest moved =>
      rw [next_eq, moved] at finished
      cases finished
  | case3 traversal rest moved induction =>
      rw [next_eq, moved] at finished
      exact induction (kept holds moved) finished

theorem Over.toList_eq (ended : traversal.Over) : traversal.toList graph = [] := by
  rw [PostOrder.toList_eq, move, ended.1, ended.2]

theorem exists_runs (graph : Graph) (traversal : PostOrder) :
    ∃ after, Runs graph traversal (traversal.toList graph) after ∧ after.Over := by
  generalize bound : traversal.work graph.size = size
  induction size using Nat.strongRecOn generalizing traversal with
  | _ size induction =>
      rw [toList_eq]
      cases moved : traversal.move graph with
      | finished => exact ⟨traversal, .refl traversal, of_move_eq_finished moved⟩
      | yield id middle =>
          rcases induction _ (bound ▸ work_yield_lt moved) middle rfl with ⟨after, rest, ended⟩
          exact ⟨after, .yield moved rest, ended⟩
      | «continue» middle =>
          rcases induction _ (bound ▸ work_continue_lt moved) middle rfl with ⟨after, rest, ended⟩
          exact ⟨after, .continue moved rest, ended⟩

namespace Runs

theorem toList_eq (runs : Runs graph traversal ids after) :
    traversal.toList graph = ids ++ after.toList graph := by
  induction runs with
  | refl => rfl
  | yield moved _ induction =>
      rw [PostOrder.toList_eq, moved]
      exact congrArg _ induction
  | «continue» moved _ induction =>
      rw [PostOrder.toList_eq, moved]
      exact induction

theorem toList_eq_of_over (runs : Runs graph traversal ids after) (ended : after.Over) :
    traversal.toList graph = ids := by
  rw [runs.toList_eq, ended.toList_eq, List.append_nil]

theorem trans {more : List Nat} (first : Runs graph traversal ids middle)
    (second : Runs graph middle more after) : Runs graph traversal (ids ++ more) after := by
  induction first with
  | refl => exact second
  | yield moved _ induction => exact .yield moved (induction second)
  | «continue» moved _ induction => exact .continue moved (induction second)

end Runs

/-! ## What waits -/

/-- The traversal with more tasks below its own, and more starts behind its own. -/
def followedBy (tasks : List Task) (starts : List Nat) (traversal : PostOrder) : PostOrder where
  tasks := traversal.tasks ++ tasks
  marks := traversal.marks
  starts := traversal.starts ++ starts

theorem starts_of_move_eq_yield {id : Nat} (moved : traversal.move graph = .yield id after) :
    after.starts = traversal.starts := by
  rcases of_move_eq_yield moved with ⟨rest, -, -, rfl⟩
  rfl

theorem starts_of_move_eq_continue (none : traversal.starts = [])
    (moved : traversal.move graph = .continue after) : after.starts = [] := by
  cases of_move_eq_continue moved with
  | start _ starts_eq => cases none.symm.trans starts_eq
  | drop => exact none
  | skip => exact none
  | expand => exact none

variable {tasks : List Task} {starts : List Nat}

/-- A traversal turns to the tasks that were added once it has neither tasks nor starts, so
there must be no starts where there are such tasks. -/
theorem move_followedBy (fits : tasks = [] ∨ traversal.starts = [])
    (unfinished : traversal.move graph ≠ .finished) :
    (traversal.followedBy tasks starts).move graph =
      match traversal.move graph with
      | .finished => .finished
      | .yield id after => .yield id (after.followedBy tasks starts)
      | .continue after => .continue (after.followedBy tasks starts) := by
  rcases traversal with ⟨own, marks, begins⟩
  cases own with
  | nil =>
      cases begins with
      | nil => exact absurd rfl unfinished
      | cons head others =>
          rcases fits with rfl | none
          · rfl
          · cases none
  | cons head rest =>
      cases head with
      | leave id =>
          simp only [move, followedBy, List.cons_append]
          split <;> rfl
      | enter id =>
          by_cases needless : (!graph.isActive id || marks.contains id) = true
          · simp [move, followedBy, needless]
          · simp [move, followedBy, needless]

theorem Runs.followedBy (runs : Runs graph traversal ids after) (tasks : List Task)
    (starts : List Nat) (fits : tasks = [] ∨ traversal.starts = []) :
    Runs graph (traversal.followedBy tasks starts) ids (after.followedBy tasks starts) := by
  induction runs with
  | refl => exact .refl _
  | yield moved _ induction =>
      refine .yield ?_ (induction ?_)
      · rw [move_followedBy fits (by rw [moved]; exact Move.noConfusion), moved]
      · rwa [starts_of_move_eq_yield moved]
  | «continue» moved _ induction =>
      refine .continue ?_ (induction ?_)
      · rw [move_followedBy fits (by rw [moved]; exact Move.noConfusion), moved]
      · exact fits.imp_right fun none => starts_of_move_eq_continue none moved

end AndInverter.PostOrder
