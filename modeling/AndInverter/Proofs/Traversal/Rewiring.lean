import AndInverter.Proofs.Graph.Replacement
import AndInverter.Proofs.Traversal.PostOrder

namespace AndInverter

/-! Traversals of a graph whose gates are merged on the way. As long as only the node just
yielded is replaced, by the constant or by a node yielded before it, the traversal yields every
node after all that the node reads by then, and in the end it has yielded all that the outputs
see. What has been yielded and is still active is not rewired any more. -/

namespace PostOrder

variable {graph replaced : Graph} {traversal after : PostOrder} {seen : List Nat} {id : Nat}

/-- The nodes that need not be waited for: the constant, and those that were yielded. -/
def Settled (seen : List Nat) (id : Nat) : Prop :=
  id = 0 ∨ id ∈ seen

theorem Settled.tail {head : Nat} (settled : Settled seen id) : Settled (head :: seen) id :=
  settled.imp_right (List.mem_cons_of_mem head)

/-- Each node that is still active, the latest first, was yielded after all that it reads. -/
def Ordered (graph : Graph) : List Nat → Prop
  | [] => True
  | id :: earlier =>
      (graph.isActive id = true → ∀ driver, graph.Reads id driver → Settled earlier driver) ∧
        Ordered graph earlier

theorem Ordered.settled_of_reads (ordered : Ordered graph seen) (member : id ∈ seen)
    (active : graph.isActive id = true) {driver : Nat} (reads : graph.Reads id driver) :
    Settled seen driver := by
  induction seen with
  | nil => cases member
  | cons head earlier induction =>
      rcases List.mem_cons.mp member with rfl | inside
      · exact (ordered.1 active driver reads).tail
      · exact (induction ordered.2 inside).tail

theorem Ordered.settled_of_sees (ordered : Ordered graph seen) (wellFormed : graph.WellFormed)
    {root target : Nat} (settled : Settled seen root) (sees : graph.Sees root target) :
    Settled seen target := by
  induction sees with
  | refl => exact settled
  | tail _ edge induction =>
      rcases induction with rfl | member
      · exact absurd edge.2 wellFormed.not_reads_constant
      · exact ordered.settled_of_reads member edge.1 edge.2

theorem Ordered.not_sees (ordered : Ordered graph seen) (wellFormed : graph.WellFormed)
    {root : Nat} (settled : Settled seen root) (fresh : ¬Settled seen id) :
    ¬graph.Sees root id :=
  fun sees => fresh (ordered.settled_of_sees wellFormed settled sees)

/-! ## Moves -/

/-- Where a traversal of the outputs stands: the constant is free, since a merge into it may let
a node read it that waits already. -/
structure Advancing (graph : Graph) (seen : List Nat) (traversal : PostOrder) : Prop
    extends Standing graph graph.outputs (· = 0) seen traversal where
  ordered : Ordered graph seen

structure Yielded (graph : Graph) (seen : List Nat) (id : Nat) : Prop where
  active : graph.isActive id = true
  fresh : id ∉ seen
  fanins : ∀ driver, graph.Reads id driver → Settled seen driver
  observed : graph.Observed id

theorem advancing_ofOutputs (graph : Graph) : Advancing graph [] (.ofOutputs graph) where
  toStanding := .ofRoots graph.outputs _ graph
  ordered := trivial

namespace Advancing

theorem proceed (advancing : Advancing graph seen traversal)
    (moved : traversal.move graph = .continue after) : Advancing graph seen after where
  toStanding := advancing.toStanding.proceed moved
  ordered := advancing.ordered

variable (advancing : Advancing graph seen traversal) (wellFormed : graph.WellFormed)

include advancing wellFormed

theorem yielded {rest : List Task} (tasks_eq : traversal.tasks = .leave id :: rest) :
    Yielded graph seen id where
  active := advancing.isActive_of_leave tasks_eq
  fresh := advancing.not_mem_seen tasks_eq
  fanins driver reads := by
    have active := wellFormed.isActive_driver id driver (advancing.isActive_of_leave tasks_eq) reads
    exact advancing.mem_seen_of_reads tasks_eq reads active (wellFormed.acyclic.not_transGen driver)
  observed := advancing.exists_sees tasks_eq

theorem yield {rest : List Task} (tasks_eq : traversal.tasks = .leave id :: rest) :
    Advancing graph (id :: seen) { traversal with tasks := rest } where
  toStanding := advancing.toStanding.yield tasks_eq
  ordered := ⟨fun _ => (advancing.yielded wellFormed tasks_eq).fanins, advancing.ordered⟩

/-! ## Nodes -/

theorem next_eq_some (found : traversal.next graph = (some id, after)) :
    Yielded graph seen id ∧ Advancing graph (id :: seen) after := by
  rcases exists_move_of_next_eq_some proceed advancing found with ⟨middle, advancing, moved⟩
  rcases of_move_eq_yield moved with ⟨rest, tasks_eq, -, rfl⟩
  exact ⟨advancing.yielded wellFormed tasks_eq, advancing.yield wellFormed tasks_eq⟩

theorem next_eq_none (finished : traversal.next graph = (none, after))
    (observed : graph.Observed id) : Settled seen id := by
  rcases observed with ⟨output, member, sees⟩
  rcases over_of_next_eq_none proceed advancing finished with ⟨advancing, ended⟩
  apply advancing.ordered.settled_of_sees wellFormed _ sees
  exact .inr (advancing.mem_seen_of_over ended member (wellFormed.outputs_active output member))

end Advancing

/-! ## Replacements -/

section Replacement

variable {survivor : Literal} {roots : List Nat} {free : Nat → Prop}
  (wellFormed : graph.WellFormed)
  (success : graph.replace survivor id = .ok replaced)

theorem Ordered.not_reads (ordered : Ordered graph seen) (fresh : ¬Settled seen id) {other : Nat}
    (member : other ∈ seen) (active : graph.isActive other = true) : ¬graph.Reads other id :=
  fun reads => fresh (ordered.settled_of_reads member active reads)

include wellFormed success

/-- The gate that is replaced is none of what was yielded before it, so nothing of this is
rewired. -/
theorem Ordered.replace (ordered : Ordered graph seen) (fresh : ¬Settled seen id) :
    Ordered replaced seen := by
  induction seen with
  | nil => trivial
  | cons head earlier induction =>
      have freshEarlier : ¬Settled earlier id := fun settled => fresh settled.tail
      refine ⟨?_, induction ordered.2 freshEarlier⟩
      intro active driver reads
      rw [Graph.isActive_replace success, Bool.and_eq_true] at active
      rcases (wellFormed.reads_replace_iff success active.1 driver).mp reads with
        ⟨kept, -⟩ | ⟨moved, -⟩
      · exact ordered.1 active.1 driver kept
      · exact absurd (ordered.1 active.1 id moved) freshEarlier

theorem Wanted.replace {tasks : List Task} {other : Nat}
    (wanted : Wanted graph roots (leaving tasks) other) (different : other ≠ id)
    (waiting : ∀ owner, .leave owner ∈ tasks → graph.isActive owner = true) :
    Wanted replaced roots (leaving tasks) other := by
  cases waits : leaving tasks with
  | nil => rwa [waits] at wanted
  | cons owner others =>
      rw [waits] at wanted
      have active := waiting owner (mem_leaving.mp (waits ▸ List.mem_cons_self))
      exact (wellFormed.reads_replace_iff success active other).mpr (.inl ⟨wanted, different⟩)

theorem Arranged.replace {marks : Marks} {above : List Nat} {tasks : List Task}
    (arranged : Arranged graph roots free marks above tasks) (left : id ∉ leaving tasks)
    (settled : free survivor.node ∨ marks.contains survivor.node = true) :
    Arranged replaced roots free marks above tasks := by
  induction tasks generalizing above with
  | nil => trivial
  | cons task rest induction =>
      cases task with
      | enter other =>
          refine ⟨?_, induction arranged.2 left⟩
          intro active unmarked
          rw [Graph.isActive_replace success, Bool.and_eq_true, decide_eq_true_eq] at active
          exact (arranged.1 active.1 unmarked).replace wellFormed success active.2
            fun _ => arranged.2.isActive_of_leave
      | leave other =>
          have different : other ≠ id ∧ id ∉ leaving rest := by
            rw [leaving_leave, List.mem_cons, not_or] at left
            exact ⟨Ne.symm left.1, left.2⟩
          rcases arranged with ⟨active, wanted, fanins, below⟩
          refine ⟨?_, ?_, ?_, induction below different.2⟩
          · rw [Graph.isActive_replace success, active]
            simpa using different.1
          · exact wanted.replace wellFormed success different.1 fun _ => below.isActive_of_leave
          · intro driver reads driverActive
            rw [Graph.isActive_replace success, Bool.and_eq_true] at driverActive
            rcases (wellFormed.reads_replace_iff success active driver).mp reads with
              ⟨kept, -⟩ | ⟨-, rfl⟩
            · exact fanins driver kept driverActive.1
            · exact settled.imp_right .inl

theorem Standing.replace (standing : Standing graph roots free seen traversal)
    (left : id ∉ leaving traversal.tasks)
    (settled : free survivor.node ∨ traversal.marks.contains survivor.node = true) :
    Standing replaced roots free seen traversal where
  toDistinct := standing.toDistinct
  mem_of_marked := standing.mem_of_marked
  arranged := standing.arranged.replace wellFormed success left settled
  starts := standing.starts
  started root member active := by
    rw [Graph.isActive_replace success, Bool.and_eq_true] at active
    exact standing.started root member active.1

theorem Advancing.replace (advancing : Advancing graph (id :: seen) traversal)
    (fresh : ¬Settled seen id) (settled : Settled seen survivor.node) :
    Advancing replaced (id :: seen) traversal where
  toStanding := by
    rw [(wellFormed.frame_replace success).outputs]
    apply advancing.toStanding.replace wellFormed success
    · intro waits
      exact (List.nodup_append.mp advancing.nodup).2.2 id waits id List.mem_cons_self rfl
    · apply settled.imp_right
      intro member
      exact advancing.marked _ (List.mem_append_right _ (List.mem_cons_of_mem id member))
  ordered := by
    refine ⟨?_, advancing.ordered.2.replace wellFormed success fresh⟩
    intro active
    simp [Graph.isActive_replace success] at active

end Replacement

end PostOrder

end AndInverter
