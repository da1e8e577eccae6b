import AndInverter.Traversal.DepthFirst
import Mathlib.Data.List.Nodup
import Mathlib.Data.List.Perm.Subperm
import Mathlib.Logic.Relation

namespace AndInverter.Explorer

/-! What a depth-first walk finishes, and why it stops. Whatever stops it, each finished node
comes after all that lies below it. It is stopped by a node below its roots that cannot be
expanded, by an edge that is refused or by a cycle, and never by the bound on its depth. -/

variable {Failure : Type} (explorer : Explorer Failure)

def Leads (upper lower : Nat) : Prop :=
  ∃ nodes, explorer.below upper = .ok nodes ∧ lower ∈ nodes

def Reaches : Nat → Nat → Prop :=
  Relation.ReflTransGen explorer.Leads

/-- Each node, the latest first, is preceded by all that lies below it. -/
def Sorted : List Nat → Prop
  | [] => True
  | id :: earlier =>
      id ∉ earlier ∧
        (∃ nodes, explorer.below id = .ok nodes ∧ ∀ child ∈ nodes, child ∈ earlier) ∧
          Sorted earlier

variable {explorer}

theorem Sorted.nodup {nodes : List Nat} (sorted : explorer.Sorted nodes) : nodes.Nodup := by
  induction nodes with
  | nil => exact List.nodup_nil
  | cons head tail induction => exact List.nodup_cons.mpr ⟨sorted.1, induction sorted.2.2⟩

theorem Sorted.exists_below {nodes : List Nat} (sorted : explorer.Sorted nodes) {id : Nat}
    (member : id ∈ nodes) : ∃ children, explorer.below id = .ok children := by
  induction nodes with
  | nil => cases member
  | cons head tail induction =>
      rcases List.mem_cons.mp member with equal | inside
      · rcases sorted.2.1 with ⟨children, below, -⟩
        exact ⟨children, equal ▸ below⟩
      · exact induction sorted.2.2 inside

theorem Sorted.mem_of_leads {nodes : List Nat} (sorted : explorer.Sorted nodes) {id child : Nat}
    (member : id ∈ nodes) (leads : explorer.Leads id child) : child ∈ nodes := by
  induction nodes with
  | nil => cases member
  | cons head tail induction =>
      apply List.mem_cons_of_mem head
      rcases List.mem_cons.mp member with equal | inside
      · rcases leads with ⟨children, below, childMember⟩
        rcases sorted.2.1 with ⟨others, sameBelow, all⟩
        rw [← equal, below] at sameBelow
        cases sameBelow
        exact all child childMember
      · exact induction sorted.2.2 inside

theorem Sorted.mem_of_reaches {nodes : List Nat} (sorted : explorer.Sorted nodes) {id lower : Nat}
    (member : id ∈ nodes) (reaches : explorer.Reaches id lower) : lower ∈ nodes := by
  induction reaches with
  | refl => exact member
  | tail _ leads induction => exact sorted.mem_of_leads induction leads

theorem Sorted.not_transGen {nodes : List Nat} (sorted : explorer.Sorted nodes) {id : Nat}
    (member : id ∈ nodes) : ¬Relation.TransGen explorer.Leads id id := by
  induction nodes with
  | nil => cases member
  | cons head tail induction =>
      rcases List.mem_cons.mp member with equal | inside
      · intro path
        rcases Relation.TransGen.head'_iff.mp path with ⟨child, ⟨children, below, inside⟩, rest⟩
        rcases sorted.2.1 with ⟨others, sameBelow, all⟩
        rw [← equal, below] at sameBelow
        cases sameBelow
        exact sorted.1 (equal ▸ sorted.2.2.mem_of_reaches (all child inside) rest)
      · exact induction sorted.2.2 inside

theorem Sorted.mem_of_split {late early : List Nat} {id child : Nat}
    (sorted : explorer.Sorted (late ++ id :: early)) (leads : explorer.Leads id child) :
    child ∈ early := by
  induction late with
  | nil =>
      rcases leads with ⟨nodes, below, member⟩
      rcases sorted.2.1 with ⟨others, sameBelow, all⟩
      cases below.symm.trans sameBelow
      exact all child member
  | cons head late induction => exact induction sorted.2.2

/-! ## One node -/

theorem checkEdges_eq_ok_iff {finished : Finished} {path : List Nat} {id : Nat}
    {nodes children : List Nat} :
    explorer.checkEdges finished path id nodes = .ok children ↔
      (∀ child ∈ nodes, explorer.refusal id child = none ∧
        (child ∉ finished.nodes → child ∉ path)) ∧
        children = nodes.filter fun child => !finished.contains child := by
  induction nodes generalizing children with
  | nil =>
      simp only [checkEdges, Except.ok.injEq, List.not_mem_nil, false_implies, implies_true,
        true_and, List.filter_nil]
      exact eq_comm
  | cons head tail induction =>
      rw [checkEdges]
      cases refusal : explorer.refusal id head with
      | some failure => simp [refusal]
      | none =>
          simp only [List.forall_mem_cons, refusal, true_and]
          by_cases done : finished.contains head = true
          · have member := (finished.contains_eq_true head).mp done
            simp [done, member, induction]
          · have missing : head ∉ finished.nodes :=
              fun member => done ((finished.contains_eq_true head).mpr member)
            rw [if_neg done]
            by_cases onPath : head ∈ path
            · simp [onPath, missing]
            · rw [if_neg onPath]
              simp only [missing, onPath, not_false_eq_true, implies_true, true_and]
              simp only [Bool.not_eq_true] at done
              rw [List.filter_cons_of_pos (by simp [done])]
              constructor
              · intro checked
                cases rest : explorer.checkEdges finished path id tail with
                | error failure => simp [rest, Except.map] at checked
                | ok others =>
                    rw [rest] at checked
                    rcases induction.mp rest with ⟨fine, equal⟩
                    refine ⟨fine, ?_⟩
                    rw [← equal]
                    exact (Except.ok.inj checked).symm
              · intro ⟨fine, equal⟩
                rw [induction.mpr ⟨fine, rfl⟩, equal]
                rfl

theorem expand_eq_ok_iff {finished : Finished} {path : List Nat} {id : Nat}
    {children : List Nat} : explorer.expand finished path id = .ok children ↔
      ∃ nodes, explorer.below id = .ok nodes ∧
        (∀ child ∈ nodes, explorer.refusal id child = none ∧
          (child ∉ finished.nodes → child ∉ path)) ∧
          children = (nodes.filter fun child => !finished.contains child).reverse := by
  rw [expand]
  cases below : explorer.below id with
  | error failure => simp [bind, Except.bind]
  | ok nodes =>
      simp only [bind, Except.bind, Except.ok.injEq, exists_eq_left']
      cases checked : explorer.checkEdges finished path id nodes with
      | error failure =>
          constructor
          · intro impossible
            cases impossible
          · intro ⟨fine, _⟩
            rw [checkEdges_eq_ok_iff.mpr ⟨fine, rfl⟩] at checked
            cases checked
      | ok others =>
          rcases checkEdges_eq_ok_iff.mp checked with ⟨fine, rfl⟩
          simp only [pure, Except.pure, Except.ok.injEq]
          constructor
          · intro equal
            exact ⟨fine, equal.symm⟩
          · intro ⟨_, equal⟩
            exact equal.symm

/-! ## What is finished -/

/-- What a walk from some roots does to what was finished before, `path` leading down to
the roots. -/
structure Visits (explorer : Explorer Failure) (path roots : List Nat) (before : Finished)
    (outcome : Finished × Option Failure) : Prop where
  sorted : explorer.Sorted outcome.1.nodes
  extends_before : ∃ added, outcome.1.nodes = added ++ before.nodes ∧
    ∀ new ∈ added, ∃ root ∈ roots, explorer.Reaches root new
  untouched : ∀ id ∈ path, id ∉ outcome.1.nodes
  finished : outcome.2 = none → ∀ root ∈ roots, root ∈ outcome.1.nodes

namespace Visits

variable {path roots : List Nat} {before : Finished}

theorem kept {outcome : Finished × Option Failure}
    (visits : explorer.Visits path roots before outcome) {id : Nat}
    (member : id ∈ before.nodes) : id ∈ outcome.1.nodes := by
  rcases visits.extends_before with ⟨added, equal, -⟩
  rw [equal]
  exact List.mem_append_right added member

theorem refl (sorted : explorer.Sorted before.nodes) (disjoint : ∀ id ∈ path, id ∉ before.nodes)
    {failure : Option Failure} (done : failure = none → ∀ root ∈ roots, root ∈ before.nodes) :
    explorer.Visits path roots before (before, failure) where
  sorted := sorted
  extends_before := ⟨[], rfl, fun _ member => nomatch member⟩
  untouched := disjoint
  finished := done

end Visits

theorem visits_visitEach {visit : Nat → Finished → Finished × Option Failure}
    {path ids : List Nat}
    (each : ∀ id ∈ ids, ∀ before : Finished, explorer.Sorted before.nodes →
      (∀ other ∈ path, other ∉ before.nodes) →
        explorer.Visits path [id] before (visit id before))
    {before : Finished} (sorted : explorer.Sorted before.nodes)
    (disjoint : ∀ id ∈ path, id ∉ before.nodes) :
    explorer.Visits path ids before (visitEach visit ids before) := by
  induction ids generalizing before with
  | nil => exact .refl sorted disjoint fun _ root member => nomatch member
  | cons head tail induction =>
      have first := each head (List.mem_cons_self ..) before sorted disjoint
      rw [visitEach]
      cases visited : visit head before with
      | mk middle failure? =>
          rw [visited] at first
          rcases first.extends_before with ⟨added, equal, reached⟩
          have reachedFromAll : ∀ new ∈ added, ∃ root ∈ head :: tail,
              explorer.Reaches root new := by
            intro new member
            rcases reached new member with ⟨root, rootMember, reaches⟩
            rcases List.mem_singleton.mp rootMember with rfl
            exact ⟨root, List.mem_cons_self .., reaches⟩
          cases failure? with
          | some failure =>
              exact {
                sorted := first.sorted
                extends_before := ⟨added, equal, reachedFromAll⟩
                untouched := first.untouched
                finished := fun impossible => nomatch impossible }
          | none =>
              -- the visits of the others begin with what the first one has finished
              have rest := induction
                (fun id member => each id (List.mem_cons_of_mem _ member))
                first.sorted first.untouched
              rcases rest.extends_before with ⟨more, moreEqual, moreReached⟩
              exact {
                sorted := rest.sorted
                extends_before := by
                  refine ⟨more ++ added, ?_, ?_⟩
                  · rw [moreEqual, List.append_assoc]
                    exact congrArg (more ++ ·) equal
                  · intro new member
                    rcases List.mem_append.mp member with late | early
                    · rcases moreReached new late with ⟨root, rootMember, reaches⟩
                      exact ⟨root, List.mem_cons_of_mem _ rootMember, reaches⟩
                    · exact reachedFromAll new early
                untouched := rest.untouched
                finished := by
                  intro succeeded root member
                  rcases List.mem_cons.mp member with rfl | inside
                  · exact rest.kept (first.finished rfl root (List.mem_singleton_self root))
                  · exact rest.finished succeeded root inside }

private theorem Visits.extends_parent {path children : List Nat} {id : Nat} {before : Finished}
    {outcome : Finished × Option Failure}
    (inner : explorer.Visits (id :: path) children before outcome)
    (leads : ∀ child ∈ children, explorer.Leads id child) :
    ∃ added, outcome.1.nodes = added ++ before.nodes ∧
      ∀ new ∈ added, explorer.Reaches id new := by
  rcases inner.extends_before with ⟨added, equal, reached⟩
  refine ⟨added, equal, ?_⟩
  intro new member
  rcases reached new member with ⟨child, childMember, reaches⟩
  exact .head (leads child childMember) reaches

private theorem Visits.fail {path children : List Nat} {id : Nat} {before after : Finished}
    {failure : Failure}
    (inner : explorer.Visits (id :: path) children before (after, some failure))
    (leads : ∀ child ∈ children, explorer.Leads id child) :
    explorer.Visits path [id] before (after, some failure) where
  sorted := inner.sorted
  extends_before := by
    rcases inner.extends_parent leads with ⟨added, equal, reached⟩
    exact ⟨added, equal, fun new member =>
      ⟨id, List.mem_singleton_self id, reached new member⟩⟩
  untouched other onPath := inner.untouched other (List.mem_cons_of_mem id onPath)
  finished impossible := nomatch impossible

private theorem Visits.finish {path children nodes : List Nat} {id : Nat}
    {before after : Finished} (offPath : id ∉ path)
    (inner : explorer.Visits (id :: path) children before (after, none))
    (leads : ∀ child ∈ children, explorer.Leads id child)
    (below : explorer.below id = .ok nodes) (all : ∀ child ∈ nodes, child ∈ after.nodes) :
    explorer.Visits path [id] before (after.insert id, none) where
  sorted := ⟨inner.untouched id (List.mem_cons_self ..), ⟨nodes, below, all⟩, inner.sorted⟩
  extends_before := by
    rcases inner.extends_parent leads with ⟨added, equal, reached⟩
    refine ⟨id :: added, congrArg (id :: ·) equal, ?_⟩
    intro new member
    refine ⟨id, List.mem_singleton_self id, ?_⟩
    rcases List.mem_cons.mp member with rfl | inside
    · exact .refl
    · exact reached new inside
  untouched other onPath member := by
    rcases List.mem_cons.mp member with rfl | inside
    · exact offPath onPath
    · exact inner.untouched other (List.mem_cons_of_mem id onPath) inside
  finished _ root member := by
    rw [List.mem_singleton.mp member]
    exact List.mem_cons_self ..

theorem visits_visit (depth : Nat) {path : List Nat} {id : Nat} {before : Finished}
    (offPath : id ∉ path) (sorted : explorer.Sorted before.nodes)
    (disjoint : ∀ other ∈ path, other ∉ before.nodes) :
    explorer.Visits path [id] before (explorer.visit depth path id before) := by
  induction depth generalizing path id before with
  | zero => exact .refl sorted disjoint fun impossible => nomatch impossible
  | succ depth induction =>
      rw [visit]
      by_cases done : before.contains id = true
      · rw [if_pos done]
        refine .refl sorted disjoint fun _ root member => ?_
        rw [List.mem_singleton.mp member]
        exact (before.contains_eq_true id).mp done
      · have missing : id ∉ before.nodes :=
          fun member => done ((before.contains_eq_true id).mpr member)
        rw [if_neg done]
        cases expanded : explorer.expand before (id :: path) id with
        | error failure => exact .refl sorted disjoint fun impossible => nomatch impossible
        | ok children =>
            rcases expand_eq_ok_iff.mp expanded with ⟨nodes, below, fine, equal⟩
            have waiting : ∀ child, child ∈ children ↔ child ∈ nodes ∧ child ∉ before.nodes := by
              intro child
              rw [equal, List.mem_reverse, List.mem_filter, Bool.not_eq_true',
                Bool.eq_false_iff, ne_eq, before.contains_eq_true]
            have inner : explorer.Visits (id :: path) children before
                (visitEach (visit explorer depth (id :: path)) children before) := by
              apply visits_visitEach _ sorted
              · intro other member
                rcases List.mem_cons.mp member with rfl | onPath
                · exact missing
                · exact disjoint other onPath
              · intro child member middle
                rcases (waiting child).mp member with ⟨inNodes, fresh⟩
                exact induction ((fine child inNodes).2 fresh)
            have leads : ∀ child ∈ children, explorer.Leads id child :=
              fun child member => ⟨nodes, below, ((waiting child).mp member).1⟩
            simp only
            cases visited : visitEach (visit explorer depth (id :: path)) children before with
            | mk after failure? =>
                rw [visited] at inner
                cases failure? with
                | some failure => exact inner.fail leads
                | none =>
                    apply inner.finish offPath leads below
                    intro child member
                    by_cases old : child ∈ before.nodes
                    · exact inner.kept old
                    · exact inner.finished rfl child ((waiting child).mpr ⟨member, old⟩)

theorem visits_exploreFrom (roots : List Nat) {before : Finished}
    (sorted : explorer.Sorted before.nodes) :
    explorer.Visits [] roots before (explorer.exploreFrom roots before) :=
  visits_visitEach (fun _ _ _ otherSorted otherDisjoint =>
    visits_visit _ (List.not_mem_nil) otherSorted otherDisjoint) sorted
    fun _ member => nomatch member

theorem visits_explore (roots : List Nat) :
    explorer.Visits [] roots (.none explorer.bound) (explorer.explore roots) :=
  visits_exploreFrom roots trivial

/-! ## What has been expanded -/

private theorem holds_visitEach {Holds : Nat → Prop}
    {visit : Nat → Finished → Finished × Option Failure}
    (each : ∀ id before, (∀ other ∈ before.nodes, Holds other) →
      ∀ other ∈ (visit id before).1.nodes, Holds other)
    {ids : List Nat} {before : Finished} (holds : ∀ other ∈ before.nodes, Holds other) :
    ∀ other ∈ (visitEach visit ids before).1.nodes, Holds other := by
  induction ids generalizing before with
  | nil => exact holds
  | cons head tail induction =>
      have first := each head before holds
      rw [visitEach]
      split
      · rename_i visited
        rwa [visited] at first
      · rename_i visited
        rw [visited] at first
        exact induction first

section Expanded

variable {Holds : Nat → Prop}
  (expanded : ∀ {finished : Finished} {path : List Nat} {id : Nat} {children : List Nat},
    explorer.expand finished path id = .ok children → Holds id)

include expanded

theorem holds_visit (depth : Nat) {path : List Nat} {id : Nat} {before : Finished}
    (holds : ∀ other ∈ before.nodes, Holds other) :
    ∀ other ∈ (explorer.visit depth path id before).1.nodes, Holds other := by
  induction depth generalizing path id before with
  | zero => exact holds
  | succ depth induction =>
      rw [visit]
      split
      · exact holds
      · split
        · exact holds
        · rename_i children done
          have below : ∀ other ∈ (visitEach (visit explorer depth (id :: path)) children
              before).1.nodes, Holds other :=
            holds_visitEach (fun _ _ => induction) holds
          split
          · rename_i visited
            rwa [visited] at below
          · rename_i visited
            rw [visited] at below
            exact List.forall_mem_cons.mpr ⟨expanded done, below⟩

theorem holds_exploreFrom {roots : List Nat} {before : Finished}
    (holds : ∀ other ∈ before.nodes, Holds other) :
    ∀ other ∈ (explorer.exploreFrom roots before).1.nodes, Holds other :=
  holds_visitEach (fun _ _ => holds_visit expanded _) holds

end Expanded

/-! ## Why a walk stops -/

def Enters (explorer : Explorer Failure) (upper lower : Nat) : Prop :=
  explorer.Leads upper lower ∧ explorer.refusal upper lower = none

/-- The failures that something below the roots gives cause for. That a walk may not go
deeper than its bound is no cause. -/
inductive Caused (explorer : Explorer Failure) (roots : List Nat) : Failure → Prop
  | unexpanded {root id : Nat} {failure : Failure} (member : root ∈ roots)
      (path : Relation.ReflTransGen explorer.Enters root id)
      (below : explorer.below id = .error failure) : Caused explorer roots failure
  | refused {root id child : Nat} {failure : Failure} (member : root ∈ roots)
      (path : Relation.ReflTransGen explorer.Enters root id) (leads : explorer.Leads id child)
      (refusal : explorer.refusal id child = some failure) : Caused explorer roots failure
  | cycle {root id : Nat} (member : root ∈ roots)
      (path : Relation.ReflTransGen explorer.Enters root id)
      (around : Relation.TransGen explorer.Enters id id) :
      Caused explorer roots (explorer.cycle id)

theorem Caused.of_entered {roots uppers : List Nat} {failure : Failure}
    (caused : explorer.Caused roots failure)
    (entered : ∀ root ∈ roots, ∃ upper ∈ uppers, Relation.ReflTransGen explorer.Enters upper root) :
    explorer.Caused uppers failure := by
  cases caused with
  | unexpanded member path below =>
      rcases entered _ member with ⟨upper, upperMember, down⟩
      exact .unexpanded upperMember (down.trans path) below
  | refused member path leads refusal =>
      rcases entered _ member with ⟨upper, upperMember, down⟩
      exact .refused upperMember (down.trans path) leads refusal
  | cycle member path around =>
      rcases entered _ member with ⟨upper, upperMember, down⟩
      exact .cycle upperMember (down.trans path) around

theorem of_checkEdges_eq_error {finished : Finished} {path : List Nat} {id : Nat}
    {nodes : List Nat} {failure : Failure}
    (failed : explorer.checkEdges finished path id nodes = .error failure) :
    ∃ child ∈ nodes, explorer.refusal id child = some failure ∨
      explorer.refusal id child = none ∧ child ∈ path ∧ failure = explorer.cycle child := by
  induction nodes with
  | nil => cases failed
  | cons head tail induction =>
      have later (rest : explorer.checkEdges finished path id tail = .error failure) :
          ∃ child ∈ head :: tail, explorer.refusal id child = some failure ∨
            explorer.refusal id child = none ∧ child ∈ path ∧ failure = explorer.cycle child := by
        rcases induction rest with ⟨child, member, why⟩
        exact ⟨child, List.mem_cons_of_mem head member, why⟩
      rw [checkEdges] at failed
      cases refusal : explorer.refusal id head with
      | some other =>
          rw [refusal] at failed
          cases failed
          exact ⟨head, List.mem_cons_self, .inl refusal⟩
      | none =>
          simp only [refusal] at failed
          split at failed
          · exact later failed
          · split at failed
            · rename_i onPath
              cases failed
              exact ⟨head, List.mem_cons_self, .inr ⟨refusal, onPath, rfl⟩⟩
            · cases rest : explorer.checkEdges finished path id tail with
              | ok children => simp [rest, Except.map] at failed
              | error other =>
                  rw [rest] at failed
                  cases failed
                  exact later rest

theorem of_expand_eq_error {finished : Finished} {path : List Nat} {id : Nat} {failure : Failure}
    (failed : explorer.expand finished path id = .error failure) :
    explorer.below id = .error failure ∨ ∃ child, explorer.Leads id child ∧
      (explorer.refusal id child = some failure ∨
        explorer.refusal id child = none ∧ child ∈ path ∧ failure = explorer.cycle child) := by
  rw [expand] at failed
  cases below : explorer.below id with
  | error other =>
      rw [below] at failed
      exact .inl failed
  | ok nodes =>
      simp only [below, bind, Except.bind] at failed
      cases checked : explorer.checkEdges finished path id nodes with
      | ok children => simp [checked, pure, Except.pure] at failed
      | error other =>
          simp only [checked, Except.error.injEq] at failed
          subst failed
          rcases of_checkEdges_eq_error checked with ⟨child, member, why⟩
          exact .inr ⟨child, ⟨nodes, below, member⟩, why⟩

theorem exists_of_visitEach_eq_some {visit : Nat → Finished → Finished × Option Failure}
    {ids : List Nat} {before : Finished} {failure : Failure}
    (failed : (visitEach visit ids before).2 = some failure) :
    ∃ id ∈ ids, ∃ middle, (visit id middle).2 = some failure := by
  induction ids generalizing before with
  | nil => cases failed
  | cons head tail induction =>
      rw [visitEach] at failed
      cases visited : visit head before with
      | mk middle failure? =>
          rw [visited] at failed
          cases failure? with
          | some other => exact ⟨head, List.mem_cons_self, before, visited ▸ failed⟩
          | none =>
              rcases induction failed with ⟨id, member, later⟩
              exact ⟨id, List.mem_cons_of_mem head member, later⟩

structure Descends (explorer : Explorer Failure) (path : List Nat) (id : Nat) : Prop where
  nodup : path.Nodup
  inside : ∀ other ∈ path, other < explorer.bound
  offPath : id ∉ path
  above : ∀ other ∈ path, Relation.TransGen explorer.Enters other id

namespace Descends

variable {path : List Nat} {id : Nat}

theorem root (explorer : Explorer Failure) (id : Nat) : explorer.Descends [] id where
  nodup := List.nodup_nil
  inside _ onPath := nomatch onPath
  offPath := List.not_mem_nil
  above _ onPath := nomatch onPath

theorem length_le (descends : explorer.Descends path id) : path.length ≤ explorer.bound := by
  have within : path ⊆ List.range explorer.bound :=
    fun other member => List.mem_range.mpr (descends.inside other member)
  have short := (List.subperm_of_subset descends.nodup within).length_le
  rwa [List.length_range] at short

theorem enter (descends : explorer.Descends path id) {nodes : List Nat} {child : Nat}
    (below : explorer.below id = .ok nodes) (edge : explorer.Enters id child)
    (offPath : child ∉ id :: path) : explorer.Descends (id :: path) child where
  nodup := List.nodup_cons.mpr ⟨descends.offPath, descends.nodup⟩
  inside := List.forall_mem_cons.mpr ⟨explorer.lt_bound below, descends.inside⟩
  offPath := offPath
  above other onPath := by
    rcases List.mem_cons.mp onPath with rfl | higher
    · exact .single edge
    · exact (descends.above other higher).tail edge

theorem caused_of_expand (descends : explorer.Descends path id) {before : Finished}
    {failure : Failure} (failed : explorer.expand before (id :: path) id = .error failure) :
    explorer.Caused [id] failure := by
  have self : id ∈ [id] := List.mem_singleton_self id
  rcases of_expand_eq_error failed with below | ⟨child, leads, refusal | ⟨fine, onPath, rfl⟩⟩
  · exact .unexpanded self .refl below
  · exact .refused self .refl leads refusal
  · have edge : explorer.Enters id child := ⟨leads, fine⟩
    rcases List.mem_cons.mp onPath with rfl | higher
    · exact .cycle self .refl (.single edge)
    · exact .cycle self (.single edge) ((descends.above child higher).tail edge)

end Descends

/-- By induction on the depth. No path is longer than the bound, so it ends before the depth
does. -/
theorem caused_of_visit (depth : Nat) {path : List Nat} {id : Nat} {before : Finished}
    {failure : Failure} (enough : depth + path.length = explorer.bound + 1)
    (descends : explorer.Descends path id)
    (failed : (explorer.visit depth path id before).2 = some failure) :
    explorer.Caused [id] failure := by
  induction depth generalizing path id before with
  | zero =>
      have short := descends.length_le
      omega
  | succ depth induction =>
      rw [visit] at failed
      split at failed
      · cases failed
      · cases expanded : explorer.expand before (id :: path) id with
        | error other =>
            rw [expanded] at failed
            cases failed
            exact descends.caused_of_expand expanded
        | ok children =>
            rcases expand_eq_ok_iff.mp expanded with ⟨nodes, below, fine, children_eq⟩
            have failedBelow : (visitEach (visit explorer depth (id :: path)) children before).2 =
                some failure := by
              rw [expanded] at failed
              simp only at failed
              split at failed
              · rename_i after other visited
                rw [visited]
                exact failed
              · cases failed
            rcases exists_of_visitEach_eq_some failedBelow with ⟨child, member, middle, childFailed⟩
            rw [children_eq, List.mem_reverse, List.mem_filter, Bool.not_eq_true',
              Bool.eq_false_iff, ne_eq, before.contains_eq_true] at member
            rcases fine child member.1 with ⟨refusal, offLongerPath⟩
            have edge : explorer.Enters id child := ⟨⟨nodes, below, member.1⟩, refusal⟩
            -- the path is one node longer, and the depth one less
            have caused : explorer.Caused [child] failure := by
              apply induction _ (descends.enter below edge (offLongerPath member.2)) childFailed
              rw [List.length_cons]
              omega
            apply caused.of_entered
            intro root rootMember
            rw [List.mem_singleton.mp rootMember]
            exact ⟨id, List.mem_singleton_self id, .single edge⟩

theorem caused_of_exploreFrom {roots : List Nat} {before : Finished} {failure : Failure}
    (failed : (explorer.exploreFrom roots before).2 = some failure) :
    explorer.Caused roots failure := by
  rcases exists_of_visitEach_eq_some failed with ⟨root, member, middle, rootFailed⟩
  have caused := caused_of_visit _ rfl (.root explorer root) rootFailed
  apply caused.of_entered
  intro other otherMember
  rw [List.mem_singleton.mp otherMember]
  exact ⟨root, member, .refl⟩

/-- Nodes that lead to each other only, with no edge between them that is refused, and none of
which lies below itself, give no cause to stop. -/
theorem exploreFrom_eq_none (Fine : Nat → Prop)
    (below : ∀ id, Fine id → ∃ nodes, explorer.below id = .ok nodes ∧
      ∀ child ∈ nodes, Fine child ∧ explorer.refusal id child = none)
    (acyclic : ∀ id, Fine id → ¬Relation.TransGen explorer.Leads id id)
    {roots : List Nat} (fine : ∀ root ∈ roots, Fine root) (before : Finished) :
    (explorer.exploreFrom roots before).2 = none := by
  have closed : ∀ {upper lower}, Fine upper → explorer.Leads upper lower →
      Fine lower ∧ explorer.refusal upper lower = none := by
    rintro upper lower upperFine ⟨nodes, found, member⟩
    rcases below upper upperFine with ⟨others, sameFound, children⟩
    cases found.symm.trans sameFound
    exact children lower member
  have reached : ∀ {root id}, root ∈ roots → Relation.ReflTransGen explorer.Enters root id →
      Fine id := by
    intro root id member path
    induction path with
    | refl => exact fine root member
    | tail _ edge induction => exact (closed induction edge.1).1
  by_contra stopped
  rcases Option.ne_none_iff_exists'.mp stopped with ⟨failure, failed⟩
  cases caused_of_exploreFrom failed with
  | unexpanded member path found =>
      rcases below _ (reached member path) with ⟨nodes, fineBelow, -⟩
      cases found.symm.trans fineBelow
  | refused member path leads refusal =>
      cases refusal.symm.trans (closed (reached member path) leads).2
  | cycle member path around =>
      exact acyclic _ (reached member path)
        (Relation.TransGen.mono (fun _ _ edge => edge.1) _ _ around)

end AndInverter.Explorer
