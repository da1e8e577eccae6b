import AndInverter.Proofs.Graph.Construction
import AndInverter.Proofs.Traversal.DepthFirst
import AndInverter.Proofs.Traversal.PostOrder
import AndInverter.Traversal.TopologicalSort

namespace AndInverter.Graph

/-! Topological sorting of graphs in any state, damaged ones too. The sort succeeds exactly when
nothing that the outputs need reads what has gone or depends on itself, and a failure names
what is wrong. What it then gives is what the outputs need, each node after all that it
reads. -/

variable {graph : Graph} {order : List Nat}

/-- Some output leads down to the node, whatever is active on the way. -/
def Needed (graph : Graph) (id : Nat) : Prop :=
  ∃ output ∈ graph.outputs, Relation.ReflTransGen graph.Reads output id

theorem Needed.below {upper lower : Nat} (needed : graph.Needed upper)
    (path : Relation.ReflTransGen graph.Reads upper lower) : graph.Needed lower := by
  rcases needed with ⟨output, member, above⟩
  exact ⟨output, member, above.trans path⟩

theorem Needed.transGen_follows (active : ∀ id, graph.Needed id → graph.isActive id = true)
    {upper lower : Nat} (needed : graph.Needed upper)
    (path : Relation.TransGen graph.Reads upper lower) :
    Relation.TransGen graph.Follows upper lower := by
  induction path with
  | single reads => exact .single ⟨active _ needed, reads⟩
  | tail path reads induction =>
      exact induction.tail ⟨active _ (needed.below path.to_reflTransGen), reads⟩

/-! ## The walk -/

theorem leads_sorter : graph.sorter.Leads = graph.Reads := by
  funext upper lower
  apply propext
  constructor
  · rintro ⟨nodes, below, member⟩
    change graph.faninIds upper = .ok nodes at below
    simp only [faninIds, Result.bind_eq_ok_iff, Result.pure_eq_ok_iff, node_eq_ok_iff] at below
    rcases below with ⟨node, found, rfl⟩
    rcases List.mem_map.mp member with ⟨edge, edgeMember, rfl⟩
    exact ⟨edge, by rwa [fanins_of_node? found], rfl⟩
  · rintro ⟨edge, member, rfl⟩
    rcases node?_of_mem_fanins member with ⟨node, found, inside⟩
    refine ⟨node.fanins.map Literal.node, ?_, List.mem_map_of_mem inside⟩
    change graph.faninIds upper = _
    rw [faninIds, node_eq_ok_iff.mpr found]
    rfl

theorem refusal_sorter_eq_none_iff {id child : Nat} :
    graph.sorter.refusal id child = none ↔ graph.isActive child = true := by
  simp [sorter]

theorem refusal_sorter_eq_some_iff {id child : Nat} {failure : Error} :
    graph.sorter.refusal id child = some failure ↔
      graph.isActive child = false ∧ failure = .defect (.readsInactive id child) := by
  simp only [sorter]
  split
  · rename_i active
    simp [active]
  · rename_i inactive
    simp [Bool.not_eq_true _ ▸ inactive, eq_comm]

theorem below_sorter_eq_error {id : Nat} {failure : Error}
    (failed : graph.sorter.below id = .error failure) : graph.isDefined id = false := by
  change graph.faninIds id = .error failure at failed
  cases defined : graph.isDefined id with
  | false => rfl
  | true =>
      rcases Option.isSome_iff_exists.mp defined with ⟨node, found⟩
      rw [faninIds, node_eq_ok_iff.mpr found] at failed
      cases failed

theorem needed_of_enters {output id : Nat} (member : output ∈ graph.outputs)
    (path : Relation.ReflTransGen graph.sorter.Enters output id) : graph.Needed id := by
  refine ⟨output, member, Relation.ReflTransGen.mono ?_ _ _ path⟩
  intro upper lower edge
  exact leads_sorter ▸ edge.1

/-! ## What a sort holds -/

/-- All that the outputs need, each node once and after all that it reads, which is active. -/
structure Sorts (graph : Graph) (order : List Nat) : Prop where
  nodup : order.Nodup
  mem_iff : ∀ id, id ∈ order ↔ graph.Needed id
  fanins_first : ∀ early id late, order = early ++ id :: late →
    ∀ driver, graph.Reads id driver → driver ∈ early
  fanins_active : ∀ id ∈ order, ∀ driver, graph.Reads id driver → graph.isActive driver = true
  acyclic : ∀ id ∈ order, ¬Relation.TransGen graph.Reads id id

theorem topologicalSort_eq_ok_iff : graph.topologicalSort = .ok order ↔
    ∃ finished, graph.sorter.explore graph.outputs = (finished, none) ∧
      finished.order = order := by
  rw [topologicalSort]
  rcases graph.sorter.explore graph.outputs with ⟨finished, failure?⟩
  cases failure? <;> simp

theorem topologicalSort_eq_error_iff {failure : Error} : graph.topologicalSort = .error failure ↔
    (graph.sorter.explore graph.outputs).2 = some failure := by
  rw [topologicalSort]
  rcases graph.sorter.explore graph.outputs with ⟨finished, failure?⟩
  cases failure? <;> simp

theorem isActive_of_expand {before : Finished} {path children : List Nat} {id : Nat}
    (expanded : graph.sorter.expand before path id = .ok children) :
    ∀ driver, graph.Reads id driver → graph.isActive driver = true := by
  intro driver reads
  rw [← leads_sorter] at reads
  rcases reads with ⟨nodes, below, member⟩
  rcases Explorer.expand_eq_ok_iff.mp expanded with ⟨others, sameBelow, fine, -⟩
  cases below.symm.trans sameBelow
  exact refusal_sorter_eq_none_iff.mp (fine driver member).1

theorem isActive_of_finished : ∀ id ∈ (graph.sorter.explore graph.outputs).1.nodes,
    ∀ driver, graph.Reads id driver → graph.isActive driver = true :=
  Explorer.holds_exploreFrom isActive_of_expand fun _ member => nomatch member

theorem sorts_of_topologicalSort (success : graph.topologicalSort = .ok order) :
    graph.Sorts order := by
  rcases topologicalSort_eq_ok_iff.mp success with ⟨finished, explored, rfl⟩
  have visits := graph.sorter.visits_explore graph.outputs
  have active := graph.isActive_of_finished
  rw [explored] at visits active
  have sorted := visits.sorted
  have members : ∀ id, id ∈ finished.order ↔ id ∈ finished.nodes := fun id => List.mem_reverse
  refine ⟨List.nodup_reverse.mpr sorted.nodup, fun id => ?_, ?_, ?_, ?_⟩
  · rw [members]
    constructor
    · intro member
      rcases visits.extends_before with ⟨added, equal, reached⟩
      rw [Finished.nodes_none, List.append_nil] at equal
      rcases reached id (equal ▸ member) with ⟨output, outputMember, path⟩
      rw [Explorer.Reaches, leads_sorter] at path
      exact ⟨output, outputMember, path⟩
    · rintro ⟨output, member, path⟩
      rw [← leads_sorter] at path
      exact sorted.mem_of_reaches (visits.finished rfl output member) path
  · intro early id late split driver reads
    have nodes : finished.nodes = late.reverse ++ id :: early.reverse := by
      rw [← List.reverse_reverse finished.nodes]
      change finished.order.reverse = _
      rw [split]
      simp
    rw [nodes] at sorted
    rw [← leads_sorter] at reads
    exact List.mem_reverse.mp (sorted.mem_of_split reads)
  · exact fun id member => active id ((members id).mp member)
  · intro id member
    rw [← leads_sorter]
    exact sorted.not_transGen ((members id).mp member)

theorem Sorts.perm_order (sorts : graph.Sorts order)
    (active : ∀ output ∈ graph.outputs, graph.isActive output = true) :
    order.Perm graph.order := by
  have needed : ∀ id, graph.Needed id → graph.isActive id = true := by
    rintro id ⟨output, member, path⟩
    cases path with
    | refl => exact active id member
    | tail above reads =>
        exact sorts.fanins_active _ ((sorts.mem_iff _).mpr ⟨output, member, above⟩) id reads
  apply (List.perm_ext_iff_of_nodup sorts.nodup graph.nodup_order).mpr
  intro id
  rw [sorts.mem_iff, mem_order_iff]
  constructor
  · rintro ⟨output, member, path⟩
    refine ⟨needed id ⟨output, member, path⟩, output, member, ?_⟩
    induction path with
    | refl => exact .refl
    | tail above reads induction => exact induction.tail ⟨needed _ ⟨output, member, above⟩, reads⟩
  · rintro ⟨-, output, member, sees⟩
    exact ⟨output, member, Relation.ReflTransGen.mono (fun _ _ edge => edge.2) _ _ sees⟩

/-! ## Why a sort fails -/

/-- The failures that the nodes which the outputs need give cause for. -/
inductive Unsortable (graph : Graph) : Error → Prop
  | readsInactive {id driver : Nat} (needed : graph.Needed id) (reads : graph.Reads id driver)
      (inactive : graph.isActive driver = false) :
      Unsortable graph (.defect (.readsInactive id driver))
  | cycle {id : Nat} (needed : graph.Needed id) (around : Relation.TransGen graph.Reads id id) :
      Unsortable graph (.defect .cycle)

theorem unsortable_of_topologicalSort
    (defined : ∀ output ∈ graph.outputs, graph.isDefined output = true) {failure : Error}
    (failed : graph.topologicalSort = .error failure) : graph.Unsortable failure := by
  rw [topologicalSort_eq_error_iff] at failed
  cases Explorer.caused_of_exploreFrom failed with
  | unexpanded member path below =>
      -- what is entered is active, so only an output could be missing
      have missing := below_sorter_eq_error below
      cases path with
      | refl => rw [defined _ member] at missing; cases missing
      | tail _ edge =>
          have active := refusal_sorter_eq_none_iff.mp edge.2
          rw [isDefined_of_isActive active] at missing
          cases missing
  | refused member path leads refusal =>
      rcases refusal_sorter_eq_some_iff.mp refusal with ⟨inactive, rfl⟩
      rw [leads_sorter] at leads
      exact .readsInactive (needed_of_enters member path) leads inactive
  | cycle member path around =>
      refine .cycle (needed_of_enters member path) (Relation.TransGen.mono ?_ _ _ around)
      intro upper lower edge
      exact leads_sorter ▸ edge.1

/-! ## Exactness -/

/-- Where the outputs are defined, a graph in any state can be sorted exactly if no node that
they need reads an inactive node or an empty slot, or depends on itself. The sort holds what
they need, each node once and after all that it reads; where the outputs are active, a
traversal holds the same. A failure tells which of the two is the matter. -/
theorem topologicalSort_exact
    (defined : ∀ output ∈ graph.outputs, graph.isDefined output = true) :
    ((∃ order, graph.topologicalSort = .ok order) ↔
      (∀ id driver, graph.Needed id → graph.Reads id driver → graph.isActive driver = true) ∧
        ∀ id, graph.Needed id → ¬Relation.TransGen graph.Reads id id) ∧
    (∀ order, graph.topologicalSort = .ok order → graph.Sorts order ∧
      ((∀ output ∈ graph.outputs, graph.isActive output = true) → order.Perm graph.order)) ∧
    ∀ failure, graph.topologicalSort = .error failure → graph.Unsortable failure := by
  refine ⟨⟨?_, ?_⟩, ?_, fun failure => unsortable_of_topologicalSort defined⟩
  · rintro ⟨order, success⟩
    have sorts := sorts_of_topologicalSort success
    exact ⟨fun id driver needed => sorts.fanins_active id ((sorts.mem_iff id).mpr needed) driver,
      fun id needed => sorts.acyclic id ((sorts.mem_iff id).mpr needed)⟩
  · rintro ⟨active, acyclic⟩
    cases sorted : graph.topologicalSort with
    | ok order => exact ⟨order, rfl⟩
    | error failure =>
        cases unsortable_of_topologicalSort defined sorted with
        | readsInactive needed reads inactive =>
            cases inactive.symm.trans (active _ _ needed reads)
        | cycle needed around => exact absurd around (acyclic _ needed)
  · intro order success
    have sorts := sorts_of_topologicalSort success
    exact ⟨sorts, sorts.perm_order⟩

/-- The twins can be sorted, although both of them read both inputs. They cannot once the
gate above them stands for one of them, or an input is marked as removed. -/
theorem topologicalSort_exact_twins :
    (∃ order, twins.topologicalSort = .ok order ∧ twins.Sorts order ∧ order.Perm twins.order) ∧
    (∃ knotted, twins.replace (.plain 5) 3 = .ok knotted ∧
      knotted.topologicalSort = .error (.defect .cycle) ∧
        ∃ id, knotted.Needed id ∧ Relation.TransGen knotted.Reads id id) ∧
    ∃ robbed, twins.deactivate 1 = .ok robbed ∧
      robbed.topologicalSort = .error (.defect (.readsInactive 4 1)) ∧
        robbed.Unsortable (.defect (.readsInactive 4 1)) := by
  refine ⟨?_, ⟨_, rfl, ?_⟩, ⟨_, rfl, ?_⟩⟩
  · have success : twins.topologicalSort = .ok [1, 2, 4, 3, 5, 6, 7] := by decide +kernel
    rcases (topologicalSort_exact (by decide)).2.1 _ success with ⟨sorts, perm⟩
    exact ⟨_, success, sorts, perm (by decide)⟩
  · refine and_iff_left_of_imp ?_ |>.mpr (by decide +kernel)
    intro failed
    cases (topologicalSort_exact (by decide)).2.2 _ failed with
    | cycle needed around => exact ⟨_, needed, around⟩
  · refine and_iff_left_of_imp ?_ |>.mpr (by decide +kernel)
    exact (topologicalSort_exact (by decide)).2.2 _

end AndInverter.Graph
