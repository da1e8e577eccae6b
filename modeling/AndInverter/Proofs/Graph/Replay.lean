import AndInverter.Journal
import AndInverter.Proofs.Graph.Replacement

namespace AndInverter

/-! Replays. The merges that a journal tells of can be carried out again, one by one. A
replay accounts for a change of a graph when it leads to the very graph that the change has
left, and merges no gate twice; it is faithful when what each gate was merged into carried the
gate's signal already before the first merge. -/

structure Merge where
  survivor : Literal
  gate : Nat
deriving DecidableEq, Repr

def Merge.event (cause : Cause) (merge : Merge) : Event :=
  .merge cause merge.survivor merge.gate

theorem Merge.event_injective (cause : Cause) : Function.Injective (Merge.event cause) := by
  intro first second same
  rcases first with ⟨survivor, gate⟩
  rcases second with ⟨otherSurvivor, otherGate⟩
  simp only [event, Event.merge, Event.mk.injEq, Option.some.injEq, true_and] at same
  rw [same.1, same.2]

namespace Graph

def replay (merges : List Merge) (graph : Graph) : Result Graph :=
  merges.foldlM (fun current merge => current.replace merge.survivor merge.gate) graph

variable {before middle after graph replaced : Graph} {early late : List Merge}
  {survivor : Literal} {gate : Nat}

theorem replay_append (early late : List Merge) (graph : Graph) :
    graph.replay (early ++ late) = graph.replay early >>= Graph.replay late :=
  List.foldlM_append

theorem replay_singleton (survivor : Literal) (gate : Nat) (graph : Graph) :
    graph.replay [⟨survivor, gate⟩] = graph.replace survivor gate := by
  rw [replay, List.foldlM_cons]
  cases graph.replace survivor gate <;> rfl

theorem isActive_replay (success : graph.replay early = .ok after) (id : Nat) :
    after.isActive id = (graph.isActive id && decide (id ∉ early.map Merge.gate)) := by
  induction early generalizing graph with
  | nil =>
      cases success
      simp
  | cons merge others induction =>
      rw [replay, List.foldlM_cons] at success
      cases replaced : graph.replace merge.survivor merge.gate with
      | error failure =>
          rw [replaced] at success
          cases success
      | ok next =>
          rw [replaced] at success
          rw [induction success, isActive_replace replaced]
          simp [Bool.and_assoc]

/-! ## Accounts -/

/-- What some merges have done to a graph, whether they were of equals or not. -/
structure Accounts (before : Graph) (merges : List Merge) (after : Graph) : Prop where
  replayed : before.replay merges = .ok after
  distinct : (merges.map Merge.gate).Nodup
  retired : ∀ merge ∈ merges, before.isGate merge.gate = true ∧
    before.isActive merge.gate = true ∧ after.isActive merge.gate = false
  wellFormed : after.WellFormed
  frame : before.Frame after

namespace Accounts

theorem nil (wellFormed : graph.WellFormed) : graph.Accounts [] graph where
  replayed := rfl
  distinct := .nil
  retired _ member := nomatch member
  wellFormed := wellFormed
  frame := .refl graph

theorem single (wellFormed : graph.WellFormed)
    (success : graph.replace survivor gate = .ok replaced)
    (unseen : ¬graph.Sees survivor.node gate) : graph.Accounts [⟨survivor, gate⟩] replaced where
  replayed := (replay_singleton survivor gate graph).trans success
  distinct := List.nodup_singleton gate
  retired merge member := by
    rw [List.mem_singleton.mp member]
    rcases replace_eq_ok_iff.mp success with ⟨old, replaceable, -⟩
    refine ⟨(isGate_of_node? replaceable.found).trans replaceable.isGate,
      (isActive_of_node? replaceable.found).trans replaceable.active, ?_⟩
    simp [isActive_replace success]
  wellFormed := wellFormed.wellFormed_replace success unseen
  frame := wellFormed.frame_replace success

theorem append (first : before.Accounts early middle) (second : middle.Accounts late after) :
    before.Accounts (early ++ late) after where
  replayed := by
    rw [replay_append, first.replayed]
    exact second.replayed
  distinct := by
    rw [List.map_append, List.nodup_append]
    refine ⟨first.distinct, second.distinct, ?_⟩
    intro gate earlier other later same
    rcases List.mem_map.mp earlier with ⟨merge, inside, rfl⟩
    rcases List.mem_map.mp later with ⟨next, nextInside, rfl⟩
    have gone := (first.retired merge inside).2.2
    rw [same, (second.retired next nextInside).2.1] at gone
    cases gone
  retired merge member := by
    rcases List.mem_append.mp member with earlier | later
    · rcases first.retired merge earlier with ⟨isGate, active, gone⟩
      refine ⟨isGate, active, Bool.eq_false_iff.mpr fun stays => ?_⟩
      rw [second.frame.isActive stays] at gone
      cases gone
    · rcases second.retired merge later with ⟨isGate, active, gone⟩
      exact ⟨first.frame.isGate merge.gate ▸ isGate, first.frame.isActive active, gone⟩
  wellFormed := second.wellFormed
  frame := first.frame.trans second.frame

end Accounts

/-! ## Faithful accounts -/

structure FaithfullyAccounts (before : Graph) (merges : List Merge) (after : Graph) : Prop
    extends Accounts before merges after where
  equal : ∀ merge ∈ merges, before.isActive merge.survivor.node = true ∧
    before.SameSignal (.plain merge.gate) merge.survivor
  preserves : before.Preserves after

namespace FaithfullyAccounts

theorem nil (wellFormed : graph.WellFormed) : graph.FaithfullyAccounts [] graph where
  toAccounts := .nil wellFormed
  equal _ member := nomatch member
  preserves := .refl graph

theorem single (wellFormed : graph.WellFormed)
    (success : graph.replace survivor gate = .ok replaced)
    (unseen : ¬graph.Sees survivor.node gate)
    (same : graph.SameSignal (.plain gate) survivor) :
    graph.FaithfullyAccounts [⟨survivor, gate⟩] replaced where
  toAccounts := .single wellFormed success unseen
  equal merge member := by
    rw [List.mem_singleton.mp member]
    rcases replace_eq_ok_iff.mp success with ⟨old, replaceable, -⟩
    exact ⟨replaceable.isActive_target, same⟩
  preserves := wellFormed.preserves_replace success unseen same

/-- What carries the same signal between two merges did so before the first one, since both
literals were there and merges of equals change no function. -/
theorem append (first : before.FaithfullyAccounts early middle)
    (second : middle.FaithfullyAccounts late after) :
    before.FaithfullyAccounts (early ++ late) after where
  toAccounts := first.toAccounts.append second.toAccounts
  equal merge member := by
    rcases List.mem_append.mp member with earlier | later
    · exact first.equal merge earlier
    · rcases second.equal merge later with ⟨survives, same⟩
      have active : middle.isActive (Literal.plain merge.gate).node = true :=
        (second.retired merge later).2.1
      exact ⟨first.frame.isActive survives,
        (first.preserves.sameSignal_iff active survives).mpr same⟩
  preserves := first.preserves.trans second.preserves

end FaithfullyAccounts

end Graph

end AndInverter
