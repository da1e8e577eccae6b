import AndInverter.Proofs.Graph.Edges
import AndInverter.Proofs.Traversal.Moves

namespace AndInverter.PostOrder

/-! Where a traversal stands that has yielded `seen`, the latest first. What waits to be yielded
and what was yielded is marked, and all of it is different, whatever graphs the moves were made
on. On a graph whose waiting nodes stay active nothing else is marked, and the tasks are
arranged so that every node comes after what it reads. -/

variable {graph : Graph} {traversal after : PostOrder} {roots seen : List Nat} {id : Nat}

def leaving (tasks : List Task) : List Nat :=
  tasks.filterMap fun
    | .enter _ => none
    | .leave id => some id

theorem mem_leaving {tasks : List Task} : id ∈ leaving tasks ↔ .leave id ∈ tasks := by
  simp only [leaving, List.mem_filterMap]
  constructor
  · rintro ⟨task, member, equal⟩
    cases task with
    | enter other => cases equal
    | leave other =>
        cases equal
        exact member
  · intro member
    exact ⟨.leave id, member, rfl⟩

@[simp] theorem leaving_leave (id : Nat) (rest : List Task) :
    leaving (.leave id :: rest) = id :: leaving rest :=
  rfl

theorem leaving_enters (edges : List Literal) (id : Nat) (rest : List Task) :
    leaving ((edges.map fun edge => .enter edge.node) ++ .leave id :: rest) =
      id :: leaving rest := by
  simp [leaving, List.filterMap_map]

theorem leaving_expansion (graph : Graph) (marks : Marks) (id : Nat) (rest : List Task) :
    leaving (expansion graph marks id ++ rest) = id :: leaving rest := by
  rw [expansion_append, leaving_enters]

/-! ## Marks -/

structure Distinct (seen : List Nat) (traversal : PostOrder) : Prop where
  marked : ∀ id ∈ leaving traversal.tasks ++ seen, traversal.marks.contains id = true
  nodup : (leaving traversal.tasks ++ seen).Nodup

namespace Distinct

variable {rest : List Task}

theorem of_tasks (distinct : Distinct seen traversal)
    (fewer : (leaving rest).Sublist (leaving traversal.tasks)) (starts : List Nat) :
    Distinct seen ⟨rest, traversal.marks, starts⟩ where
  marked other member :=
    distinct.marked other ((fewer.append_right seen).subset member)
  nodup := distinct.nodup.sublist (fewer.append_right seen)

theorem not_mem_seen (distinct : Distinct seen traversal)
    (tasks_eq : traversal.tasks = .leave id :: rest) : id ∉ seen := by
  have nodup := distinct.nodup
  rw [tasks_eq, leaving_leave, List.cons_append] at nodup
  exact fun member => (List.nodup_cons.mp nodup).1 (List.mem_append_right _ member)

theorem yield (distinct : Distinct seen traversal)
    (tasks_eq : traversal.tasks = .leave id :: rest) :
    Distinct (id :: seen) { traversal with tasks := rest } := by
  rcases distinct with ⟨marked, nodup⟩
  rw [tasks_eq, leaving_leave, List.cons_append] at marked nodup
  refine ⟨?_, List.perm_middle.nodup_iff.mpr nodup⟩
  intro other member
  exact marked other (List.perm_middle.mem_iff.mp member)

theorem expand (distinct : Distinct seen traversal)
    (tasks_eq : traversal.tasks = .enter id :: rest)
    (fresh : traversal.marks.contains id = false) :
    Distinct seen
      { traversal with
        tasks := expansion graph (traversal.marks.insert id) id ++ rest
        marks := traversal.marks.insert id } := by
  rcases distinct with ⟨marked, nodup⟩
  rw [tasks_eq] at marked nodup
  refine ⟨?_, ?_⟩
  · intro other member
    rw [leaving_expansion] at member
    rw [Marks.contains_insert, Bool.or_eq_true, decide_eq_true_eq]
    exact (List.mem_cons.mp member).imp_right (marked other)
  · rw [leaving_expansion]
    refine List.nodup_cons.mpr ⟨fun member => ?_, nodup⟩
    rw [marked id member] at fresh
    cases fresh

theorem proceed (distinct : Distinct seen traversal)
    (moved : traversal.move graph = .continue after) : Distinct seen after := by
  cases of_move_eq_continue moved with
  | drop tasks_eq inactive =>
      apply distinct.of_tasks
      rw [tasks_eq]
      exact List.sublist_cons_self _ _
  | skip tasks_eq needless =>
      apply distinct.of_tasks
      rw [tasks_eq]
      exact List.Sublist.refl _
  | expand tasks_eq active fresh => exact distinct.expand tasks_eq fresh
  | start tasks_eq starts_eq =>
      apply distinct.of_tasks
      exact List.nil_sublist _

end Distinct

/-! ## Tasks -/

/-- Why a node is on the way: the next node that waits for its fanins reads it, or it is a
root where none waits. -/
def Wanted (graph : Graph) (roots : List Nat) : (waiting : List Nat) → Nat → Prop
  | [], id => id ∈ roots
  | owner :: _, id => graph.Reads owner id

/-- How the tasks of a traversal are arranged, `above` holding the nodes that are entered
before them. What waits is active, and what it reads is inactive, free, marked, or entered
before it. -/
def Arranged (graph : Graph) (roots : List Nat) (free : Nat → Prop) (marks : Marks) :
    (above : List Nat) → List Task → Prop
  | _, [] => True
  | above, .enter id :: rest =>
      (graph.isActive id = true → marks.contains id = false →
          Wanted graph roots (leaving rest) id) ∧
        Arranged graph roots free marks (id :: above) rest
  | above, .leave id :: rest =>
      graph.isActive id = true ∧ Wanted graph roots (leaving rest) id ∧
        (∀ driver, graph.Reads id driver → graph.isActive driver = true →
          free driver ∨ marks.contains driver = true ∨ driver ∈ above) ∧
          Arranged graph roots free marks above rest

variable {free : Nat → Prop}

namespace Arranged

variable {marks laterMarks : Marks} {above later : List Nat} {tasks rest : List Task}

theorem isActive_of_leave (arranged : Arranged graph roots free marks above tasks)
    (member : .leave id ∈ tasks) : graph.isActive id = true := by
  induction tasks generalizing above with
  | nil => cases member
  | cons task rest induction =>
      cases task with
      | enter other =>
          rcases List.mem_cons.mp member with equal | inside
          · cases equal
          · exact induction arranged.2 inside
      | leave other =>
          rcases List.mem_cons.mp member with equal | inside
          · cases equal
            exact arranged.1
          · exact induction arranged.2.2.2 inside

theorem transGen_of_wanted (arranged : Arranged graph roots free marks above tasks)
    (wanted : Wanted graph roots (leaving tasks) id) {upper : Nat}
    (member : .leave upper ∈ tasks) : Relation.TransGen graph.Follows upper id := by
  induction tasks generalizing above id with
  | nil => cases member
  | cons task rest induction =>
      cases task with
      | enter other =>
          rcases List.mem_cons.mp member with equal | inside
          · cases equal
          · exact induction arranged.2 wanted inside
      | leave other =>
          have edge : graph.Follows other id := ⟨arranged.1, wanted⟩
          rcases List.mem_cons.mp member with equal | inside
          · cases equal
            exact .single edge
          · exact (induction arranged.2.2.2 arranged.2.1 inside).tail edge

theorem exists_sees (arranged : Arranged graph roots free marks above tasks)
    (wanted : Wanted graph roots (leaving tasks) id) : ∃ root ∈ roots, graph.Sees root id := by
  induction tasks generalizing above id with
  | nil => exact ⟨id, wanted, .refl⟩
  | cons task rest induction =>
      cases task with
      | enter other => exact induction arranged.2 wanted
      | leave other =>
          rcases induction arranged.2.2.2 arranged.2.1 with ⟨root, member, sees⟩
          exact ⟨root, member, sees.tail ⟨arranged.1, wanted⟩⟩

theorem mono (arranged : Arranged graph roots free marks above tasks)
    (marked : ∀ other, marks.contains other = true → laterMarks.contains other = true)
    (entered : ∀ other ∈ above, graph.isActive other = true →
      laterMarks.contains other = true ∨ other ∈ later) :
    Arranged graph roots free laterMarks later tasks := by
  induction tasks generalizing above later with
  | nil => trivial
  | cons task rest induction =>
      cases task with
      | enter other =>
          refine ⟨?_, ?_⟩
          · intro active unmarked
            apply arranged.1 active
            rw [Bool.eq_false_iff]
            intro wasMarked
            rw [marked other wasMarked] at unmarked
            cases unmarked
          · apply induction arranged.2
            intro inside member active
            rcases List.mem_cons.mp member with rfl | old
            · exact .inr List.mem_cons_self
            · exact (entered inside old active).imp_right (.tail other)
      | leave other =>
          refine ⟨arranged.1, arranged.2.1, ?_, induction arranged.2.2.2 entered⟩
          intro driver reads active
          rcases arranged.2.2.1 driver reads active with isFree | wasMarked | member
          · exact .inl isFree
          · exact .inr (.inl (marked driver wasMarked))
          · exact .inr (entered driver member active)

theorem enter_fanins {waiting : List Literal}
    (fanins : ∀ edge ∈ waiting, graph.Reads id edge.node)
    (arranged : Arranged graph roots free marks ((waiting.map Literal.node).reverse ++ above)
      (.leave id :: rest)) :
    Arranged graph roots free marks above
      ((waiting.map fun edge => .enter edge.node) ++ .leave id :: rest) := by
  induction waiting generalizing above with
  | nil => exact arranged
  | cons edge others induction =>
      refine ⟨?_, ?_⟩
      · intro _ _
        rw [List.append_eq, leaving_enters]
        exact fanins edge List.mem_cons_self
      · apply induction fun other member => fanins other (.tail edge member)
        simpa using arranged

theorem expand (arranged : Arranged graph roots free marks [] (.enter id :: rest))
    (active : graph.isActive id = true) (fresh : marks.contains id = false) :
    Arranged graph roots free (marks.insert id) []
      (expansion graph (marks.insert id) id ++ rest) := by
  rw [expansion_append]
  apply enter_fanins
  · intro edge member
    exact Graph.reads_of_mem (List.mem_filter.mp member).1
  · refine ⟨active, arranged.1 active fresh, ?_, ?_⟩
    · rintro driver ⟨edge, member, rfl⟩ -
      cases marked : (marks.insert id).contains edge.node with
      | true => exact .inr (.inl rfl)
      | false =>
          right; right
          rw [List.append_nil, List.mem_reverse]
          exact List.mem_map_of_mem (List.mem_filter.mpr ⟨member, by simp [marked]⟩)
    · apply arranged.2.mono
      · exact fun other marked => Marks.contains_insert_of_contains marked id
      · intro other member _
        rw [List.mem_singleton.mp member]
        exact .inl (Marks.contains_insert_self marks id)

end Arranged

/-! ## Moves -/

/-- Where a traversal stands that began at some roots; it need not wait for what is free. -/
structure Standing (graph : Graph) (roots : List Nat) (free : Nat → Prop) (seen : List Nat)
    (traversal : PostOrder) : Prop extends Distinct seen traversal where
  mem_of_marked : ∀ id, traversal.marks.contains id = true → id ∈ leaving traversal.tasks ++ seen
  arranged : Arranged graph roots free traversal.marks [] traversal.tasks
  starts : ∀ id ∈ traversal.starts, id ∈ roots
  started : ∀ root ∈ roots, graph.isActive root = true → root ∈ traversal.starts ∨
    .enter root ∈ traversal.tasks ∨ traversal.marks.contains root = true

def ofRoots (roots : List Nat) (graph : Graph) : PostOrder where
  tasks := []
  marks := .none graph.size
  starts := roots

namespace Standing

theorem ofRoots (roots : List Nat) (free : Nat → Prop) (graph : Graph) :
    Standing graph roots free [] (.ofRoots roots graph) where
  marked _ member := absurd member List.not_mem_nil
  nodup := List.nodup_nil
  mem_of_marked id marked := by simp [PostOrder.ofRoots] at marked
  arranged := trivial
  starts _ member := member
  started _ member _ := .inl member

theorem ofNode (start : Nat) (free : Nat → Prop) (graph : Graph) :
    Standing graph [start] free [] (.ofNode start graph) where
  marked _ member := absurd member List.not_mem_nil
  nodup := List.nodup_nil
  mem_of_marked id marked := by simp [PostOrder.ofNode] at marked
  arranged := ⟨fun _ _ => List.mem_singleton_self start, trivial⟩
  starts _ member := absurd member List.not_mem_nil
  started root member _ := .inr (.inl (List.mem_singleton.mp member ▸ List.mem_cons_self))

variable (standing : Standing graph roots free seen traversal) {rest : List Task}

include standing

theorem contains_iff : traversal.marks.contains id = true ↔ id ∈ leaving traversal.tasks ++ seen :=
  ⟨standing.mem_of_marked id, standing.marked id⟩

theorem arranged_of_tasks_eq {tasks : List Task} (tasks_eq : traversal.tasks = tasks) :
    Arranged graph roots free traversal.marks [] tasks :=
  tasks_eq ▸ standing.arranged

theorem mem_of_tasks_eq {tasks : List Task} (tasks_eq : traversal.tasks = tasks)
    (marked : traversal.marks.contains id = true) : id ∈ leaving tasks ++ seen :=
  tasks_eq ▸ standing.mem_of_marked id marked

theorem isActive_of_leave (tasks_eq : traversal.tasks = .leave id :: rest) :
    graph.isActive id = true :=
  (standing.arranged_of_tasks_eq tasks_eq).1

theorem exists_sees (tasks_eq : traversal.tasks = .leave id :: rest) :
    ∃ root ∈ roots, graph.Sees root id := by
  have arranged := standing.arranged_of_tasks_eq tasks_eq
  exact arranged.2.2.2.exists_sees arranged.2.1

theorem marked_of_reads (tasks_eq : traversal.tasks = .leave id :: rest) {driver : Nat}
    (reads : graph.Reads id driver) (active : graph.isActive driver = true) :
    free driver ∨ traversal.marks.contains driver = true := by
  have arranged := standing.arranged_of_tasks_eq tasks_eq
  rcases arranged.2.2.1 driver reads active with isFree | marked | entered
  · exact .inl isFree
  · exact .inr marked
  · cases entered

/-- What the node reads that is yielded next was yielded before it. If it still waited, it
would see the node that reads it. -/
theorem mem_seen_of_reads (tasks_eq : traversal.tasks = .leave id :: rest) {driver : Nat}
    (reads : graph.Reads id driver) (active : graph.isActive driver = true)
    (acyclic : ¬Relation.TransGen graph.Follows driver driver) : free driver ∨ driver ∈ seen := by
  have follows : graph.Follows id driver := ⟨standing.isActive_of_leave tasks_eq, reads⟩
  refine (standing.marked_of_reads tasks_eq reads active).imp_right fun marked => ?_
  rcases List.mem_append.mp (standing.mem_of_tasks_eq tasks_eq marked) with waits | yielded
  · exfalso
    have arranged := standing.arranged_of_tasks_eq tasks_eq
    rcases List.mem_cons.mp waits with rfl | inside
    · exact acyclic (.single follows)
    · have path := arranged.2.2.2.transGen_of_wanted arranged.2.1 (mem_leaving.mp inside)
      exact acyclic (path.tail follows)
  · exact yielded

theorem yield (tasks_eq : traversal.tasks = .leave id :: rest) :
    Standing graph roots free (id :: seen) { traversal with tasks := rest } where
  toDistinct := standing.toDistinct.yield tasks_eq
  mem_of_marked other marked :=
    List.perm_middle.mem_iff.mpr (standing.mem_of_tasks_eq tasks_eq marked)
  arranged := (standing.arranged_of_tasks_eq tasks_eq).2.2.2
  starts := standing.starts
  started root member active := by
    have known := standing.started root member active
    rw [tasks_eq] at known
    simpa using known

theorem skip (tasks_eq : traversal.tasks = .enter id :: rest)
    (needless : graph.isActive id = true → traversal.marks.contains id = true) :
    Standing graph roots free seen { traversal with tasks := rest } where
  toDistinct := by
    apply standing.toDistinct.of_tasks
    rw [tasks_eq]
    exact List.Sublist.refl _
  mem_of_marked other marked := by
    have member := standing.mem_of_tasks_eq tasks_eq marked
    exact member
  arranged := by
    apply (standing.arranged_of_tasks_eq tasks_eq).2.mono fun _ marked => marked
    intro other member active
    rw [List.mem_singleton.mp member] at active ⊢
    exact .inl (needless active)
  starts := standing.starts
  started root member active := by
    have known := standing.started root member active
    rw [tasks_eq, List.mem_cons, Task.enter.injEq] at known
    rcases known with start | (rfl | waits) | marked
    · exact .inl start
    · exact .inr (.inr (needless active))
    · exact .inr (.inl waits)
    · exact .inr (.inr marked)

theorem expand (tasks_eq : traversal.tasks = .enter id :: rest)
    (active : graph.isActive id = true) (fresh : traversal.marks.contains id = false) :
    Standing graph roots free seen
      { traversal with
        tasks := expansion graph (traversal.marks.insert id) id ++ rest
        marks := traversal.marks.insert id } where
  toDistinct := standing.toDistinct.expand tasks_eq fresh
  mem_of_marked other marked := by
    rw [Marks.contains_insert, Bool.or_eq_true, decide_eq_true_eq] at marked
    rw [leaving_expansion]
    refine List.mem_cons.mpr (marked.imp_right fun marked => ?_)
    have member := standing.mem_of_tasks_eq tasks_eq marked
    exact member
  arranged := (standing.arranged_of_tasks_eq tasks_eq).expand active fresh
  starts := standing.starts
  started root member rootActive := by
    have known := standing.started root member rootActive
    rw [tasks_eq, List.mem_cons, Task.enter.injEq] at known
    rcases known with start | (rfl | waits) | marked
    · exact .inl start
    · exact .inr (.inr (Marks.contains_insert_self traversal.marks root))
    · exact .inr (.inl (List.mem_append_right _ waits))
    · exact .inr (.inr (Marks.contains_insert_of_contains marked id))

theorem start {others : List Nat} (tasks_eq : traversal.tasks = [])
    (starts_eq : traversal.starts = id :: others) :
    Standing graph roots free seen { traversal with tasks := [.enter id], starts := others } where
  toDistinct := by
    apply standing.toDistinct.of_tasks
    exact List.nil_sublist _
  mem_of_marked other marked := by
    have member := standing.mem_of_tasks_eq tasks_eq marked
    exact member
  arranged := ⟨fun _ _ => standing.starts id (starts_eq ▸ List.mem_cons_self), trivial⟩
  starts other member := standing.starts other (starts_eq ▸ List.mem_cons_of_mem id member)
  started root member active := by
    have known := standing.started root member active
    rw [tasks_eq, starts_eq, List.mem_cons] at known
    rcases known with (rfl | start) | waits | marked
    · exact .inr (.inl List.mem_cons_self)
    · exact .inl start
    · cases waits
    · exact .inr (.inr marked)

theorem proceed (moved : traversal.move graph = .continue after) :
    Standing graph roots free seen after := by
  cases of_move_eq_continue moved with
  | drop tasks_eq inactive =>
      rw [standing.isActive_of_leave tasks_eq] at inactive
      cases inactive
  | skip tasks_eq needless => exact standing.skip tasks_eq needless
  | expand tasks_eq active fresh => exact standing.expand tasks_eq active fresh
  | start tasks_eq starts_eq => exact standing.start tasks_eq starts_eq

theorem contains_iff_of_over (ended : traversal.Over) :
    traversal.marks.contains id = true ↔ id ∈ seen := by
  rw [standing.contains_iff, ended.1]
  rfl

theorem mem_seen_of_over (ended : traversal.Over) {root : Nat} (member : root ∈ roots)
    (active : graph.isActive root = true) : root ∈ seen := by
  have known := standing.started root member active
  rw [ended.1, ended.2, standing.contains_iff_of_over ended] at known
  simpa using known

end Standing

end AndInverter.PostOrder
