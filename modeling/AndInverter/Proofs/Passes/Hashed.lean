import AndInverter.Proofs.Graph.Construction
import AndInverter.Proofs.Passes.Progress

namespace AndInverter

/-! The normal form of structural hashing. When a gate is hashed, its fanins are final, and
the table lists the gates in service among those hashed before it, each under the literals
that it reads. So no two of the gates that the outputs see in the end read the same two
literals, and hashing once more changes nothing. -/

namespace Graph

/-- No two gates that the outputs see read the same two literals, in either order. -/
def Hashed (graph : Graph) : Prop :=
  ∀ first second left right, graph.Observed first → graph.Observed second →
    (graph.node? first).map Node.kind = some (.gate left right) →
      ((graph.node? second).map Node.kind = some (.gate left right) ∨
        (graph.node? second).map Node.kind = some (.gate right left)) → first = second

def gateKey? (graph : Graph) (id : Nat) : Option (Nat × Nat) :=
  match (graph.node? id).map Node.kind with
  | some (.gate left right) => some (gateKey left right)
  | _ => none

theorem gateKey?_eq_some_iff {graph : Graph} {id : Nat} {key : Nat × Nat} :
    graph.gateKey? id = some key ↔ ∃ left right,
      (graph.node? id).map Node.kind = some (.gate left right) ∧ gateKey left right = key := by
  rw [gateKey?]
  split
  · rename_i left right found
    simp [found]
  · rename_i other
    constructor
    · intro impossible
      cases impossible
    · rintro ⟨left, right, found, -⟩
      exact absurd found (other left right)

theorem hashed_iff {graph : Graph} : graph.Hashed ↔
    ∀ first second key, graph.Observed first → graph.Observed second →
      graph.gateKey? first = some key → graph.gateKey? second = some key → first = second := by
  constructor
  · intro hashed first second key firstObserved secondObserved firstKey secondKey
    rcases gateKey?_eq_some_iff.mp firstKey with ⟨left, right, found, rfl⟩
    rcases gateKey?_eq_some_iff.mp secondKey with ⟨otherLeft, otherRight, otherFound, same⟩
    apply hashed first second left right firstObserved secondObserved found
    rcases gateKey_eq_iff.mp same with ⟨rfl, rfl⟩ | ⟨rfl, rfl⟩
    · exact .inl otherFound
    · exact .inr otherFound
  · intro separate first second left right firstObserved secondObserved found otherFound
    apply separate first second (gateKey left right) firstObserved secondObserved
    · exact gateKey?_eq_some_iff.mpr ⟨left, right, found, rfl⟩
    · rcases otherFound with otherFound | otherFound
      · exact gateKey?_eq_some_iff.mpr ⟨left, right, otherFound, rfl⟩
      · exact gateKey?_eq_some_iff.mpr ⟨right, left, otherFound, gateKey_comm right left⟩

end Graph

open PostOrder

theorem judgeNode_structuralHash (table : GateTable) (id : Nat) (graph : Graph) :
    structuralHash.judgeNode table id graph = match graph.gateKey? id with
      | none => (none, table)
      | some key =>
          match table[key]? with
          | some first => (some (.plain first), table)
          | none => (none, table.insert key id) := by
  rw [Pass.judgeNode, Graph.gateKey?]
  cases (graph.node? id).map Node.kind with
  | none => rfl
  | some kind => cases kind <;> rfl

namespace GateTable

variable {table after : GateTable} {graph replaced : Graph} {seen : List Nat} {id : Nat}

/-- The table lists the gates in service among those that were hashed. -/
def Lists (table : GateTable) (graph : Graph) (seen : List Nat) : Prop :=
  ∀ key first, table[key]? = some first ↔
    first ∈ seen ∧ graph.isActive first = true ∧ graph.gateKey? first = some key

theorem Lists.skip (lists : table.Lists graph seen) (yielded : Yielded graph seen id)
    (judged : structuralHash.judgeNode table id graph = (none, after)) :
    after.Lists graph (id :: seen) := by
  rw [judgeNode_structuralHash] at judged
  intro key first
  rw [List.mem_cons]
  cases gate : graph.gateKey? id with
  | none =>
      simp only [gate, Prod.mk.injEq, true_and] at judged
      rw [← judged, lists key first]
      constructor
      · rintro ⟨member, rest⟩
        exact ⟨.inr member, rest⟩
      · rintro ⟨rfl | member, active, keyed⟩
        · rw [gate] at keyed
          cases keyed
        · exact ⟨member, active, keyed⟩
  | some own =>
      cases entry : table[own]? with
      | some other => simp [gate, entry] at judged
      | none =>
          simp only [gate, entry, Prod.mk.injEq, true_and] at judged
          rw [← judged, getElem?_insert]
          split
          · rename_i same
            subst same
            rw [Option.some.injEq]
            constructor
            · rintro rfl
              exact ⟨.inl rfl, yielded.active, gate⟩
            · rintro ⟨rfl | member, active, keyed⟩
              · rfl
              · rw [(lists own first).mpr ⟨member, active, keyed⟩] at entry
                cases entry
          · rename_i different
            rw [lists key first]
            constructor
            · rintro ⟨member, rest⟩
              exact ⟨.inr member, rest⟩
            · rintro ⟨rfl | member, active, keyed⟩
              · rw [gate, Option.some.injEq] at keyed
                exact absurd keyed different
              · exact ⟨member, active, keyed⟩

theorem Lists.replace (lists : table.Lists graph seen) (wellFormed : graph.WellFormed)
    (ordered : Ordered graph seen) (fresh : ¬Settled seen id) {survivor : Literal}
    (success : graph.replace survivor id = .ok replaced) : table.Lists replaced (id :: seen) := by
  have kept : ∀ first ∈ seen, graph.isActive first = true →
      replaced.gateKey? first = graph.gateKey? first := by
    intro first member active
    rw [Graph.gateKey?, Graph.gateKey?, wellFormed.kind_replace_of_not_reads success
      (ordered.not_reads fresh member active)]
  intro key first
  rw [lists key first, List.mem_cons, Graph.isActive_replace success, Bool.and_eq_true,
    decide_eq_true_eq]
  constructor
  · rintro ⟨member, active, keyed⟩
    refine ⟨.inr member, ⟨active, ?_⟩, by rw [kept first member active, keyed]⟩
    rintro rfl
    exact fresh (.inr member)
  · rintro ⟨rfl | member, ⟨active, different⟩, keyed⟩
    · exact absurd rfl different
    · exact ⟨member, active, by rw [← kept first member active, keyed]⟩

end GateTable

theorem listed_of_judgeNode {table after : GateTable} {graph : Graph} {id : Nat}
    {survivor : Literal}
    (judged : structuralHash.judgeNode table id graph = (some survivor, after)) :
    ∃ key, graph.gateKey? id = some key ∧ table[key]? = some survivor.node ∧ after = table := by
  rw [judgeNode_structuralHash] at judged
  cases gate : graph.gateKey? id with
  | none => simp [gate] at judged
  | some key =>
      cases entry : table[key]? with
      | none => simp [gate, entry] at judged
      | some first =>
          simp only [gate, entry, Prod.mk.injEq, Option.some.injEq] at judged
          rcases judged with ⟨rfl, rfl⟩
          exact ⟨key, rfl, entry, rfl⟩

theorem orderly_structuralHash : structuralHash.Orderly GateTable.Lists where
  initial graph := by
    intro key first
    simp [structuralHash]
  skip _ _ yielded lists judged := lists.skip yielded judged
  settled := by
    intro table after graph seen id survivor wellFormed yielded lists judged
    rcases listed_of_judgeNode judged with ⟨key, -, entry, -⟩
    rcases (lists key survivor.node).mp entry with ⟨member, active, keyed⟩
    rcases Graph.isActive_eq_true_iff.mp active with ⟨node, found, nodeActive⟩
    refine ⟨.inr member, node, found, nodeActive, ?_⟩
    rcases Graph.gateKey?_eq_some_iff.mp keyed with ⟨left, right, kind, -⟩
    rw [found, Option.map_some, Option.some.injEq] at kind
    rw [kind]
    rfl
  merge := by
    intro table after graph replaced seen id survivor wellFormed ordered yielded lists judged
      success
    rcases listed_of_judgeNode judged with ⟨-, -, -, rfl⟩
    exact lists.replace wellFormed ordered
      (Pass.Orderly.fresh_of_judgeNode wellFormed yielded judged) success

theorem hashed_of_ends {graph final : Graph} (ends : Pass.Ends GateTable.Lists graph final) :
    final.Hashed := by
  rcases ends.knows with ⟨table, seen, lists, settled⟩
  have listed : ∀ id key, final.Observed id → final.gateKey? id = some key →
      table[key]? = some id := by
    intro id key observed keyed
    apply (lists key id).mpr
    have isGate : final.isGate id = true := by
      rcases Graph.gateKey?_eq_some_iff.mp keyed with ⟨left, right, kind, -⟩
      rcases Option.map_eq_some_iff.mp kind with ⟨node, found, kind⟩
      rw [Graph.isGate_of_node? found, kind]
      rfl
    rcases settled id observed with rfl | member
    · rw [ends.wellFormed.isGate_constant] at isGate
      cases isGate
    · exact ⟨member, ends.wellFormed.isActive_of_observed observed, keyed⟩
  apply Graph.hashed_iff.mpr
  intro first second key firstObserved secondObserved firstKey secondKey
  have both := listed first key firstObserved firstKey
  rw [listed second key secondObserved secondKey] at both
  exact (Option.some.inj both).symm

theorem Graph.Hashed.run_eq {graph : Graph} (hashed : graph.Hashed)
    (wellFormed : graph.WellFormed) :
    structuralHash.run graph = ⟨graph, [.note (.hashed 0)], .ok 0⟩ := by
  apply orderly_structuralHash.run_idle wellFormed
  intro table seen id yielded observed lists
  cases verdict : structuralHash.judgeNode table id graph with
  | mk survivor? after =>
      cases survivor? with
      | none => rfl
      | some survivor =>
          exfalso
          rcases listed_of_judgeNode verdict with ⟨key, keyed, entry, -⟩
          rcases (lists key survivor.node).mp entry with ⟨member, -, otherKeyed⟩
          have same := Graph.hashed_iff.mp hashed survivor.node id key (observed _ member)
            yielded.observed otherKeyed keyed
          exact yielded.fresh (same ▸ member)

/-- Hashing never fails on a well-formed graph, whatever table an earlier run has left. It
counts the gates that it takes out of service, it leaves the graph hashed, and once more it
does nothing. -/
theorem GateTable.hash_normalizes {graph : Graph} (wellFormed : graph.WellFormed)
    (table again : GateTable) :
    let outcome := table.hash graph
    let repeated := again.hash outcome.graph
    outcome.result = .ok (graph.retired outcome.graph).length ∧ outcome.graph.Hashed ∧
      repeated.result = .ok 0 ∧ repeated.journal.events = [] ∧
        repeated.graph = outcome.graph := by
  simp only [GateTable.hash_eq_run]
  rcases orderly_structuralHash.run wellFormed with ⟨counted, ends⟩
  have hashed := hashed_of_ends ends
  rw [hashed.run_eq ends.wellFormed]
  exact ⟨counted, hashed, rfl, rfl, rfl⟩

/-- Two gates of the sample read the same two inputs. The second one is merged, though the
table that is left names other gates under their key. -/
theorem GateTable.hash_normalizes_twins :
    let stale : GateTable := (∅ : GateTable).insert (2, 4) 5
    let outcome := stale.hash Graph.twins
    Graph.twins.WellFormed ∧ outcome.result = .ok 1 ∧ Graph.twins.retired outcome.graph = [4] ∧
      outcome.graph.Hashed ∧ (stale.hash outcome.graph).graph = outcome.graph := by
  intro stale outcome
  have wellFormed := Graph.consistent_twins.toWellFormed
  have normal := GateTable.hash_normalizes wellFormed stale stale
  have retired : Graph.twins.retired outcome.graph = [4] := by decide +kernel
  refine ⟨wellFormed, ?_, retired, normal.2.1, normal.2.2.2.2⟩
  exact normal.1.trans (by rw [retired]; rfl)

end AndInverter
