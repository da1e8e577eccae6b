import AndInverter.Proofs.Traversal.Standing

namespace AndInverter

/-! Traversals of a graph that does not change under them. A traversal yields every
active node that its roots see, each one once; in an acyclic graph a node comes
after all that it reads. -/

namespace PostOrder

variable {graph : Graph} {traversal after : PostOrder} {roots seen : List Nat}

/-! ## The invariant -/

/-- Where a traversal of a graph that stays as it is stands: nothing is free. -/
structure Visiting (graph : Graph) (roots seen : List Nat) (traversal : PostOrder) : Prop
    extends Standing graph roots (fun _ => False) seen traversal where
  active : ∀ id ∈ seen, graph.isActive id = true
  rooted : ∀ id ∈ seen, ∃ root ∈ roots, graph.Sees root id
  closed : ∀ id ∈ seen, ∀ driver, graph.Reads id driver → graph.isActive driver = true →
    traversal.marks.contains driver = true
  ordered : graph.AcyclicBelow roots → ∀ late id early, seen = late ++ id :: early →
    ∀ driver, graph.Reads id driver → graph.isActive driver = true → driver ∈ early

namespace Visiting

theorem of_standing (standing : Standing graph roots (fun _ => False) [] traversal) :
    Visiting graph roots [] traversal where
  toStanding := standing
  active _ member := nomatch member
  rooted _ member := nomatch member
  closed _ member := nomatch member
  ordered _ late id early split := by simp at split

theorem ofRoots (roots : List Nat) (graph : Graph) :
    Visiting graph roots [] (.ofRoots roots graph) :=
  of_standing (.ofRoots roots _ graph)

theorem ofOutputs (graph : Graph) : Visiting graph graph.outputs [] (.ofOutputs graph) :=
  .ofRoots graph.outputs graph

theorem ofNode (start : Nat) (graph : Graph) : Visiting graph [start] [] (.ofNode start graph) :=
  of_standing (.ofNode start _ graph)

variable (visiting : Visiting graph roots seen traversal)

include visiting

theorem yield {id : Nat} {rest : List Task} (tasks_eq : traversal.tasks = .leave id :: rest) :
    Visiting graph roots (id :: seen) { traversal with tasks := rest } where
  toStanding := visiting.toStanding.yield tasks_eq
  active := List.forall_mem_cons.mpr ⟨visiting.isActive_of_leave tasks_eq, visiting.active⟩
  rooted := List.forall_mem_cons.mpr ⟨visiting.exists_sees tasks_eq, visiting.rooted⟩
  closed := by
    refine List.forall_mem_cons.mpr ⟨?_, visiting.closed⟩
    intro driver reads active
    exact (visiting.marked_of_reads tasks_eq reads active).resolve_left not_false
  ordered acyclic late other early split driver reads active := by
    cases late with
    | cons head late =>
        simp only [List.cons_append, List.cons.injEq] at split
        exact visiting.ordered acyclic late other early split.2 driver reads active
    | nil =>
        simp only [List.nil_append, List.cons.injEq] at split
        rcases split with ⟨rfl, rfl⟩
        rcases visiting.exists_sees tasks_eq with ⟨root, member, sees⟩
        have follows : graph.Follows id driver := ⟨visiting.isActive_of_leave tasks_eq, reads⟩
        have unrepeated := acyclic root member driver (sees.tail follows)
        exact (visiting.mem_seen_of_reads tasks_eq reads active unrepeated).resolve_left not_false

theorem proceed (moved : traversal.move graph = .continue after) :
    Visiting graph roots seen after where
  toStanding := visiting.toStanding.proceed moved
  active := visiting.active
  rooted := visiting.rooted
  closed id member driver reads active :=
    contains_of_move_eq_continue moved (visiting.closed id member driver reads active)
  ordered := visiting.ordered

end Visiting

theorem Runs.visiting {ids : List Nat} (runs : Runs graph traversal ids after)
    (visiting : Visiting graph roots seen traversal) :
    Visiting graph roots (ids.reverse ++ seen) after := by
  induction runs generalizing seen with
  | refl => exact visiting
  | yield moved _ induction =>
      rcases of_move_eq_yield moved with ⟨rest, tasks_eq, -, rfl⟩
      simpa using induction (visiting.yield tasks_eq)
  | «continue» moved _ induction => exact induction (visiting.proceed moved)

/-! ## What a traversal yields -/

theorem Visiting.toList (visiting : Visiting graph roots seen traversal) :
    ∃ final, final.Over ∧
      Visiting graph roots ((traversal.toList graph).reverse ++ seen) final := by
  rcases exists_runs graph traversal with ⟨final, runs, ended⟩
  exact ⟨final, ended, runs.visiting visiting⟩

theorem nodup_toList (visiting : Visiting graph roots [] traversal) :
    (traversal.toList graph).Nodup := by
  rcases visiting.toList with ⟨final, ended, visited⟩
  have nodup := visited.nodup
  rw [ended.1, List.append_nil] at nodup
  exact List.nodup_reverse.mp nodup

/-- A traversal yields the active nodes that its roots see, and no others. -/
theorem mem_toList_iff (visiting : Visiting graph roots [] traversal) {id : Nat} :
    id ∈ traversal.toList graph ↔
      graph.isActive id = true ∧ ∃ root ∈ roots, graph.Sees root id := by
  rcases visiting.toList with ⟨final, ended, visited⟩
  rw [List.append_nil] at visited
  rw [← List.mem_reverse]
  constructor
  · exact fun yielded => ⟨visited.active id yielded, visited.rooted id yielded⟩
  · rintro ⟨active, root, rootMember, sees⟩
    -- the active nodes on the path are yielded, from the root on
    induction sees with
    | refl => exact visited.mem_seen_of_over ended rootMember active
    | tail _ follows induction =>
        rw [← visited.contains_iff_of_over ended]
        exact visited.closed _ (induction follows.1) _ follows.2 active

theorem fanins_first (visiting : Visiting graph roots [] traversal)
    (acyclic : graph.AcyclicBelow roots)
    {early late : List Nat} {id : Nat} (split : traversal.toList graph = early ++ id :: late)
    {driver : Nat} (reads : graph.Reads id driver) (active : graph.isActive driver = true) :
    driver ∈ early := by
  rcases visiting.toList with ⟨final, -, visited⟩
  have reversed : (traversal.toList graph).reverse ++ [] = late.reverse ++ id :: early.reverse := by
    rw [split]
    simp
  have member := visited.ordered acyclic _ id _ reversed driver reads active
  exact List.mem_reverse.mp member

end PostOrder

namespace Graph

/-! ## The orders of a graph -/

variable {graph : Graph}

theorem mem_order_iff {id : Nat} : id ∈ graph.order ↔
    graph.isActive id = true ∧ ∃ output ∈ graph.outputs, graph.Sees output id :=
  PostOrder.mem_toList_iff (.ofOutputs graph)

theorem nodup_order (graph : Graph) : graph.order.Nodup :=
  PostOrder.nodup_toList (.ofOutputs graph)

theorem mem_orderBelow_iff {start id : Nat} :
    id ∈ graph.orderBelow start ↔ graph.isActive id = true ∧ graph.Sees start id := by
  rw [orderBelow, PostOrder.mem_toList_iff (.ofNode start graph)]
  simp

theorem mem_order_of_mem_outputs {output : Nat} (member : output ∈ graph.outputs)
    (active : graph.isActive output = true) : output ∈ graph.order :=
  mem_order_iff.mpr ⟨active, output, member, .refl⟩

theorem mem_order_of_reads {consumer driver : Nat} (member : consumer ∈ graph.order)
    (reads : graph.Reads consumer driver) (active : graph.isActive driver = true) :
    driver ∈ graph.order := by
  rcases mem_order_iff.mp member with ⟨consumerActive, output, outputMember, sees⟩
  exact mem_order_iff.mpr ⟨active, output, outputMember, sees.tail ⟨consumerActive, reads⟩⟩

end Graph

end AndInverter
