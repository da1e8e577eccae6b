import AndInverter.Proofs.Passes.Hashed
import AndInverter.Proofs.Passes.Simplified

namespace AndInverter

/-! Traversals of a graph that changes between their calls. Whatever graph a call is given, it
comes to an end; what it yields is active in that graph, and was not yielded since the traversal
began. Where a gate is merged only when it has just been yielded, and only into what was yielded
before, a node is yielded after all that it reads by then, and nothing that the outputs see is
missed. -/

namespace PostOrder

variable {graph replaced start : Graph} {traversal after : PostOrder} {seen : List Nat} {id : Nat}

/-! ## One call -/

def nextWithin (graph : Graph) : (moves : Nat) → PostOrder → Option (Option Nat × PostOrder)
  | 0, _ => none
  | moves + 1, traversal =>
      match traversal.move graph with
      | .finished => some (none, traversal)
      | .yield id after => some (some id, after)
      | .continue after => nextWithin graph moves after

theorem nextWithin_eq_next {moves : Nat} (enough : traversal.work graph.size < moves) :
    nextWithin graph moves traversal = some (traversal.next graph) := by
  induction moves generalizing traversal with
  | zero => cases enough
  | succ moves induction =>
      rw [nextWithin, next_eq]
      cases moved : traversal.move graph with
      | finished
      | yield id after => rfl
      | «continue» after =>
          have less := work_continue_lt moved
          exact induction (by omega)

/-! ## Calls on any graphs -/

/-- A traversal after some calls, and what it has yielded since it began or was begun anew, the
latest first. Each call may be given another graph. -/
inductive Called : (seen : List Nat) → PostOrder → Prop
  | ofNode (id : Nat) (graph : Graph) : Called [] (.ofNode id graph)
  | ofOutputs (graph : Graph) : Called [] (.ofOutputs graph)
  | reset {seen : List Nat} {traversal : PostOrder} (graph : Graph)
      (earlier : Called seen traversal) : Called [] (traversal.reset graph)
  | yield {seen : List Nat} {traversal after : PostOrder} {id : Nat} {graph : Graph}
      (earlier : Called seen traversal) (found : traversal.next graph = (some id, after)) :
      Called (id :: seen) after
  | finish {seen : List Nat} {traversal after : PostOrder} {graph : Graph}
      (earlier : Called seen traversal) (finished : traversal.next graph = (none, after)) :
      Called seen after

namespace Distinct

theorem next_eq_some (distinct : Distinct seen traversal)
    (found : traversal.next graph = (some id, after)) :
    graph.isActive id = true ∧ id ∉ seen ∧ Distinct (id :: seen) after := by
  rcases exists_move_of_next_eq_some proceed distinct found with ⟨middle, distinct, moved⟩
  rcases of_move_eq_yield moved with ⟨rest, tasks_eq, active, rfl⟩
  exact ⟨active, distinct.not_mem_seen tasks_eq, distinct.yield tasks_eq⟩

theorem next_eq_none (distinct : Distinct seen traversal)
    (finished : traversal.next graph = (none, after)) : Distinct seen after :=
  (over_of_next_eq_none proceed distinct finished).1

end Distinct

theorem Called.distinct (called : Called seen traversal) : Distinct seen traversal := by
  induction called with
  | ofNode
  | ofOutputs
  | reset => exact ⟨fun _ member => absurd member List.not_mem_nil, List.nodup_nil⟩
  | yield earlier found induction => exact (induction.next_eq_some found).2.2
  | finish earlier finished induction => exact induction.next_eq_none finished

/-! ## Merges on the way -/

/-- A traversal of the outputs of a graph, where each gate may be merged when it has just been
yielded, into the constant or what was yielded before it; with the graph by then. -/
inductive Merging (start : Graph) : Graph → (seen : List Nat) → PostOrder → Prop
  | start : Merging start start [] (.ofOutputs start)
  | yield {graph : Graph} {seen : List Nat} {traversal after : PostOrder} {id : Nat}
      (earlier : Merging start graph seen traversal)
      (found : traversal.next graph = (some id, after)) : Merging start graph (id :: seen) after
  | finish {graph : Graph} {seen : List Nat} {traversal after : PostOrder}
      (earlier : Merging start graph seen traversal)
      (finished : traversal.next graph = (none, after)) : Merging start graph seen after
  | merge {graph replaced : Graph} {seen : List Nat} {traversal : PostOrder} {id : Nat}
      {survivor : Literal} (earlier : Merging start graph (id :: seen) traversal)
      (settled : Settled seen survivor.node)
      (success : graph.replace survivor id = .ok replaced) :
      Merging start replaced (id :: seen) traversal

theorem not_settled_of_replace {survivor : Literal} (wellFormed : graph.WellFormed)
    (nodup : (id :: seen).Nodup) (success : graph.replace survivor id = .ok replaced) :
    ¬Settled seen id := by
  rintro (rfl | member)
  · rcases Graph.replace_eq_ok_iff.mp success with ⟨node, replaceable, -⟩
    have isGate := wellFormed.isGate_constant
    rw [Graph.isGate_of_node? replaceable.found, replaceable.isGate] at isGate
    cases isGate
  · exact (List.nodup_cons.mp nodup).1 member

namespace Merging

theorem called (merging : Merging start graph seen traversal) : Called seen traversal := by
  induction merging with
  | start => exact .ofOutputs start
  | yield earlier found induction => exact induction.yield found
  | finish earlier finished induction => exact induction.finish finished
  | merge earlier settled success induction => exact induction

theorem advancing (merging : Merging start graph seen traversal) (wellFormed : start.WellFormed) :
    graph.WellFormed ∧ Advancing graph seen traversal := by
  induction merging with
  | start => exact ⟨wellFormed, advancing_ofOutputs start⟩
  | yield earlier found induction =>
      exact ⟨induction.1, (induction.2.next_eq_some induction.1 found).2⟩
  | finish earlier finished induction =>
      exact ⟨induction.1, (over_of_next_eq_none Advancing.proceed induction.2 finished).1⟩
  | merge earlier settled success induction =>
      rcases induction with ⟨before, advancing⟩
      have nodup := (List.nodup_append.mp advancing.nodup).2.1
      have fresh := not_settled_of_replace before nodup success
      have unseen := advancing.ordered.2.not_sees before settled fresh
      exact ⟨before.wellFormed_replace success unseen,
        advancing.replace before success fresh settled⟩

end Merging

end PostOrder

open PostOrder

theorem Pass.Orderly.merging_runFrom {Memory : Type} {pass : Pass Memory}
    {Knows : Memory → Graph → List Nat → Prop} (orderly : pass.Orderly Knows)
    {start graph : Graph} {seen : List Nat} {traversal : PostOrder} {memory : Memory}
    (wellFormed : start.WellFormed) (merging : Merging start graph seen traversal)
    (knows : Knows memory graph seen) (merges : Nat) :
    let outcome := pass.runFrom traversal memory merges graph
    ∃ seen traversal, Merging start outcome.graph seen traversal ∧
      (traversal.next outcome.graph).1 = none := by
  induction traversal, memory, merges, graph using runFrom.induct pass generalizing seen with
  | case1 traversal memory merges graph rest finished =>
      rw [runFrom_eq, finished]
      exact ⟨seen, traversal, merging, congrArg Prod.fst finished⟩
  | case2 traversal memory merges graph id rest found after judged induction =>
      rw [runFrom_eq, found]
      simp only [judged]
      rcases merging.advancing wellFormed with ⟨current, advancing⟩
      have yielded := (advancing.next_eq_some current found).1
      exact induction (merging.yield found)
        (orderly.skip current advancing.ordered yielded knows judged)
  | case3 traversal memory merges graph id rest found survivor after judged failure refused =>
      rcases merging.advancing wellFormed with ⟨current, advancing⟩
      have yielded := (advancing.next_eq_some current found).1
      rcases orderly.replace_eq_ok current yielded knows judged with ⟨replaced, success⟩
      rw [refused] at success
      cases success
  | case4 traversal memory merges graph id rest found survivor after judged replaced accepted
      induction =>
      rw [runFrom_eq, found]
      simp only [judged, accepted, Outcome.after]
      rcases merging.advancing wellFormed with ⟨current, advancing⟩
      have yielded := (advancing.next_eq_some current found).1
      have settled := (orderly.settled current yielded knows judged).1
      exact induction ((merging.yield found).merge settled accepted)
        (orderly.merge current advancing.ordered yielded knows judged accepted)

namespace PostOrder

/-- A traversal survives any changes of its graph between its calls. Each call comes to an end,
and what it yields is active and new since the traversal began. If the outputs of a well-formed
graph are traversed and the only changes are such merges, a node that is yielded reads nothing
but what is active, and constant or yielded before it, and when the traversal is over, all that
the outputs see is constant or was yielded. Hashing and simplification are such traversals, up to
their end. -/
theorem survives_changes :
    (∀ seen traversal, Called seen traversal → seen.Nodup ∧ ∀ graph : Graph,
      (∃ moves ≤ 4 * graph.size + traversal.tasks.length + 2 * traversal.starts.length + 1,
        nextWithin graph moves traversal = some (traversal.next graph)) ∧
      ∀ id after, traversal.next graph = (some id, after) →
        graph.isActive id = true ∧ id ∉ seen) ∧
    ∀ start : Graph, start.WellFormed →
      (∀ graph seen traversal, Merging start graph seen traversal →
        graph.WellFormed ∧ Called seen traversal ∧
        (∀ id after, traversal.next graph = (some id, after) → ∀ fanin ∈ graph.fanins id,
          (fanin.node = 0 ∨ fanin.node ∈ seen) ∧ graph.isActive fanin.node = true) ∧
        ∀ after, traversal.next graph = (none, after) → ∀ id, graph.Observed id →
          id = 0 ∨ id ∈ seen) ∧
      (∃ seen traversal, Merging start (structuralHash.run start).graph seen traversal ∧
        (traversal.next (structuralHash.run start).graph).1 = none) ∧
      ∃ seen traversal, Merging start (simplification.run start).graph seen traversal ∧
        (traversal.next (simplification.run start).graph).1 = none := by
  refine ⟨fun seen traversal called => ⟨?_, fun graph => ⟨?_, ?_⟩⟩,
    fun start wellFormed => ⟨?_, ?_, ?_⟩⟩
  · exact (List.nodup_append.mp called.distinct.nodup).2.1
  · have few := traversal.work_le graph.size
    exact ⟨traversal.work graph.size + 1, by omega, nextWithin_eq_next (Nat.lt_succ_self _)⟩
  · intro id after found
    rcases called.distinct.next_eq_some found with ⟨active, fresh, -⟩
    exact ⟨active, fresh⟩
  · intro graph seen traversal merging
    rcases merging.advancing wellFormed with ⟨current, advancing⟩
    refine ⟨current, merging.called, fun id after found fanin member => ?_,
      fun after finished id => advancing.next_eq_none current finished⟩
    have yielded := (advancing.next_eq_some current found).1
    have reads := Graph.reads_of_mem member
    exact ⟨yielded.fanins fanin.node reads, current.isActive_driver _ _ yielded.active reads⟩
  · exact orderly_structuralHash.merging_runFrom wellFormed .start
      (orderly_structuralHash.initial start) 0
  · exact orderly_simplification.merging_runFrom wellFormed .start
      (orderly_simplification.initial start) 0

/-- The third gate of the sample is yielded after its two fanins, the second of which has been
merged into the first one by then. A traversal goes on, too, where the first gate comes to read
the third one, which is a cycle. -/
theorem survives_changes_twins :
    let first := (PostOrder.ofOutputs Graph.twins).next Graph.twins
    let second := first.2.next Graph.twins
    let third := second.2.next Graph.twins
    let fourth := third.2.next Graph.twins
    let merged := Graph.twins.mapNodes (Graph.replaceInNode (.plain 3) 4 [⟨5, true⟩])
    let cyclic := Graph.twins.modify 3 fun node => { node with kind := .gate (.plain 5) (.plain 2) }
    (fourth.2.next merged).1 = some 5 ∧ merged.fanins 5 = [.plain 3, ⟨3, true⟩] ∧
      (∀ fanin ∈ merged.fanins 5, (fanin.node = 0 ∨ fanin.node ∈ [4, 3, 2, 1]) ∧
        merged.isActive fanin.node = true) ∧
      (first.2.next cyclic).1 = some 2 ∧ cyclic.isActive 2 = true ∧ 2 ∉ [1] := by
  intro first second third fourth merged cyclic
  rcases survives_changes with ⟨anyGraphs, merges⟩
  have wellFormed := Graph.consistent_twins.toWellFormed
  have firstFound : (PostOrder.ofOutputs Graph.twins).next Graph.twins = (some 1, first.2) := by
    decide +kernel
  have secondFound : first.2.next Graph.twins = (some 2, second.2) := by decide +kernel
  have thirdFound : second.2.next Graph.twins = (some 3, third.2) := by decide +kernel
  have fourthFound : third.2.next Graph.twins = (some 4, fourth.2) := by decide +kernel
  have fifthFound : fourth.2.next merged = (some 5, (fourth.2.next merged).2) := by decide +kernel
  have cyclicFound : first.2.next cyclic = (some 2, (first.2.next cyclic).2) := by decide +kernel
  have success : Graph.twins.replace (.plain 3) 4 = .ok merged := rfl
  have yielded : Merging Graph.twins Graph.twins [4, 3, 2, 1] fourth.2 :=
    (((Merging.start.yield firstFound).yield secondFound).yield thirdFound).yield fourthFound
  have settled : Settled [3, 2, 1] (Literal.plain 3).node := .inr List.mem_cons_self
  have current := (merges Graph.twins wellFormed).1 merged _ _ (yielded.merge settled success)
  have called : Called [1] first.2 := .yield (.ofOutputs Graph.twins) firstFound
  exact ⟨congrArg Prod.fst fifthFound, rfl, current.2.2.1 5 _ fifthFound,
    congrArg Prod.fst cyclicFound, ((anyGraphs [1] first.2 called).2 cyclic).2 2 _ cyclicFound⟩

end PostOrder

end AndInverter
