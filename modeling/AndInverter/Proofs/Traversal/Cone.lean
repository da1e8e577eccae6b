import AndInverter.Proofs.Graph.Edges
import AndInverter.Traversal.Cone

namespace AndInverter

/-! Searches of a fanin cone, in graphs in any state: inactive nodes and empty slots may be
read, and there may be cycles. The target is met exactly where the root sees it. No node is
looked below twice, so a search ends after at most so many looks as there are edges, and one
more for the root, and one to find that nothing is left. -/

namespace ConeSearch

variable {graph : Graph} {root target id : Nat} {search after : ConeSearch}

/-! ## Looks -/

inductive Continues (graph : Graph) (target : Nat) (search : ConeSearch) : ConeSearch → Prop
  | skip {id : Nat} {rest : List Nat} (waiting_eq : search.waiting = id :: rest)
      (other : id ≠ target)
      (needless : graph.isActive id = true → search.marks.contains id = true) :
      Continues graph target search { search with waiting := rest }
  | expand {id : Nat} {rest : List Nat} (waiting_eq : search.waiting = id :: rest)
      (other : id ≠ target) (active : graph.isActive id = true) :
      Continues graph target search
        { waiting := (graph.fanins id).reverse.map Literal.node ++ rest
          marks := search.marks.insert id }

theorem of_look_eq_continue (looked : search.look graph target = .continue after) :
    Continues graph target search after := by
  rw [look] at looked
  split at looked
  · cases looked
  · rename_i id rest waiting_eq
    split at looked
    · cases looked
    · rename_i other
      split at looked
      · rename_i needless
        cases looked
        apply Continues.skip waiting_eq other
        intro active
        simpa [active] using needless
      · rename_i entered
        cases looked
        simp only [Bool.or_eq_true, Bool.not_eq_true', not_or, Bool.not_eq_false] at entered
        exact .expand waiting_eq other entered.1

theorem of_look_eq_true (looked : search.look graph target = .answer true) :
    target ∈ search.waiting := by
  rw [look] at looked
  split at looked
  · cases looked
  · rename_i id rest waiting_eq
    split at looked
    · rename_i same
      rw [waiting_eq, same]
      exact List.mem_cons_self
    · split at looked <;> cases looked

theorem of_look_eq_false (looked : search.look graph target = .answer false) :
    search.waiting = [] := by
  rw [look] at looked
  split at looked
  · assumption
  · split at looked
    · cases looked
    · split at looked <;> cases looked

theorem finds_eq (graph : Graph) (target : Nat) (search : ConeSearch) :
    search.finds graph target = match search.look graph target with
      | .answer found => found
      | .continue after => after.finds graph target := by
  rw [finds]
  split <;> simp_all

/-! ## The invariant -/

/-- The node waits, or it was looked at, and below unless it is inactive, without success. -/
def Covers (graph : Graph) (target : Nat) (search : ConeSearch) (id : Nat) : Prop :=
  id ∈ search.waiting ∨
    id ≠ target ∧ (graph.isActive id = true → search.marks.contains id = true)

/-- Where a search of the cone of a node stands: what waits is seen by the root, and of the
root and what marked nodes read, nothing is left out. -/
structure Searching (graph : Graph) (root target : Nat) (search : ConeSearch) : Prop where
  reached : ∀ id ∈ search.waiting, graph.Sees root id
  begun : search.Covers graph target root
  closed : ∀ id, search.marks.contains id = true → ∀ driver, graph.Reads id driver →
    search.Covers graph target driver

/-- What is covered stays so: the node that is looked at is not the target. -/
theorem Covers.of_continues (covers : search.Covers graph target id)
    (continues : Continues graph target search after) : after.Covers graph target id := by
  cases continues with
  | skip waiting_eq other needless =>
      rw [Covers, waiting_eq, List.mem_cons] at covers
      rcases covers with (rfl | waits) | passed
      · exact .inr ⟨other, needless⟩
      · exact .inl waits
      · exact .inr passed
  | expand waiting_eq other active =>
      rw [Covers, waiting_eq, List.mem_cons] at covers
      rcases covers with (rfl | waits) | ⟨different, marked⟩
      · exact .inr ⟨other, fun _ => by simp⟩
      · exact .inl (List.mem_append_right _ waits)
      · exact .inr ⟨different, fun active => by simp [marked active]⟩

namespace Searching

theorem ofNode (graph : Graph) (root target : Nat) :
    Searching graph root target (.ofNode root graph) where
  reached id member := by
    rw [List.mem_singleton.mp member]
    exact .refl
  begun := .inl (List.mem_singleton_self root)
  closed id marked := by simp [ConeSearch.ofNode] at marked

theorem proceed (searching : Searching graph root target search)
    (continues : Continues graph target search after) : Searching graph root target after where
  reached id member := by
    cases continues with
    | skip waiting_eq =>
        apply searching.reached
        rw [waiting_eq]
        exact List.mem_cons_of_mem _ member
    | @expand upper rest waiting_eq other active =>
        have reached := searching.reached
        rw [waiting_eq] at reached
        rcases List.mem_append.mp member with below | waits
        · rcases List.mem_map.mp below with ⟨edge, edgeMember, rfl⟩
          have reads := Graph.reads_of_mem (List.mem_reverse.mp edgeMember)
          exact (reached upper List.mem_cons_self).tail ⟨active, reads⟩
        · exact reached id (List.mem_cons_of_mem _ waits)
  begun := searching.begun.of_continues continues
  closed id marked driver reads := by
    by_cases before : search.marks.contains id = true
    · exact (searching.closed id before driver reads).of_continues continues
    · -- only the node that was looked at can be marked anew, and its fanins wait
      cases continues with
      | skip => exact absurd marked before
      | expand =>
          rw [Marks.contains_insert, Bool.or_eq_true, decide_eq_true_eq] at marked
          rcases reads with ⟨edge, member, rfl⟩
          rw [← marked.resolve_right before]
          exact .inl (List.mem_append_left _ (List.mem_map_of_mem (List.mem_reverse.mpr member)))

theorem ne_target (searching : Searching graph root target search) (ended : search.waiting = [])
    (sees : graph.Sees root id) : id ≠ target := by
  have passed : ∀ {other}, search.Covers graph target other →
      other ≠ target ∧ (graph.isActive other = true → search.marks.contains other = true) :=
    fun covers => covers.resolve_left (by simp [ended])
  have covers : search.Covers graph target id := by
    induction sees with
    | refl => exact searching.begun
    | tail _ follows induction =>
        exact searching.closed _ ((passed induction).2 follows.1) _ follows.2
  exact (passed covers).1

theorem finds_iff (searching : Searching graph root target search) :
    search.finds graph target = true ↔ graph.Sees root target := by
  induction search using finds.induct graph target with
  | case1 search found looked =>
      rw [finds_eq, looked]
      cases found with
      | true => exact iff_of_true rfl (searching.reached target (of_look_eq_true looked))
      | false =>
          refine iff_of_false Bool.false_ne_true fun sees => ?_
          exact searching.ne_target (of_look_eq_false looked) sees rfl
  | case2 search after looked induction =>
      rw [finds_eq, looked]
      exact induction (searching.proceed (of_look_eq_continue looked))

end Searching

/-! ## The number of looks -/

def findsWithin (graph : Graph) (target : Nat) : (looks : Nat) → ConeSearch → Option Bool
  | 0, _ => none
  | looks + 1, search =>
      match search.look graph target with
      | .answer found => some found
      | .continue after => findsWithin graph target looks after

theorem findsWithin_eq_finds {looks : Nat} (enough : search.work graph.size < looks) :
    findsWithin graph target looks search = some (search.finds graph target) := by
  induction looks generalizing search with
  | zero => cases enough
  | succ looks induction =>
      rw [findsWithin, finds_eq]
      cases looked : search.look graph target with
      | answer found => rfl
      | «continue» after =>
          have less := work_look_lt looked
          exact induction (by omega)

theorem work_ofNode_le (root : Nat) (graph : Graph) :
    (ofNode root graph).work graph.size ≤ 2 * graph.size + 1 := by
  have unmarked := (Marks.none graph.size).unmarked_le graph.size
  simp only [work, ofNode, List.length_singleton]
  omega

end ConeSearch

theorem Graph.coneContains_iff {graph : Graph} {root target : Nat} :
    graph.coneContains root target = true ↔ graph.Sees root target :=
  (ConeSearch.Searching.ofNode graph root target).finds_iff

end AndInverter
