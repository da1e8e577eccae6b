import AndInverter.Passes.Pass
import Std.Data.TreeMap

namespace AndInverter

/-! Structural hashing: of the gates that read the same two literals, in either
order, the first one that the traversal meets is kept, and the others are merged
into it. -/

def gateKey (left right : Literal) : Nat × Nat :=
  (min left.raw right.raw, max left.raw right.raw)

abbrev GateTable := @Std.TreeMap (Nat × Nat) Nat (@compare _ lexOrd)

def structuralHash : Pass GateTable where
  cause := .hashing
  initial := ∅
  judge table gate left right :=
    match table[gateKey left right]? with
    | some first => (some (.plain first), table)
    | none => (none, table.insert (gateKey left right) gate)
  announcement gate survivor := .duplicate gate survivor.node
  summary merges := .hashed merges

namespace GateTable

def clear (_ : GateTable) : GateTable :=
  ∅

/-- A run with the table that an earlier run has left, which is cleared before the first
gate. -/
def hash (table : GateTable) (graph : Graph) : Outcome Nat :=
  structuralHash.runFrom (.ofOutputs graph) table.clear 0 graph

theorem hash_eq_run (table : GateTable) (graph : Graph) :
    table.hash graph = structuralHash.run graph :=
  rfl

end GateTable

theorem gateKey_comm (left right : Literal) : gateKey left right = gateKey right left := by
  simp [gateKey, Nat.min_comm, Nat.max_comm]

theorem gateKey_eq_iff {left right otherLeft otherRight : Literal} :
    gateKey left right = gateKey otherLeft otherRight ↔
      (left = otherLeft ∧ right = otherRight) ∨ (left = otherRight ∧ right = otherLeft) := by
  constructor
  · intro equal
    simp only [gateKey, Prod.mk.injEq] at equal
    have sorted : (left.raw = otherLeft.raw ∧ right.raw = otherRight.raw) ∨
        (left.raw = otherRight.raw ∧ right.raw = otherLeft.raw) := by omega
    exact sorted.imp
      (fun same => ⟨Literal.raw_injective same.1, Literal.raw_injective same.2⟩)
      (fun same => ⟨Literal.raw_injective same.1, Literal.raw_injective same.2⟩)
  · rintro (⟨rfl, rfl⟩ | ⟨rfl, rfl⟩)
    · rfl
    · exact gateKey_comm _ _

end AndInverter
