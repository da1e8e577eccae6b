import AndInverter.Proofs.Graph.Construction

namespace AndInverter.Graph

/-! Growth. A graph that grows node by node comprises in the end what it comprised before
and what was added. A node can be added wherever its slot is free and what it reads may be
read. -/

/-- The nodes of a graph are these and no others, as they were made: nothing has been
removed, simulated or put into a class. -/
structure Comprises (graph : Graph) (nodes : List (Nat × Kind)) : Prop where
  kind : ∀ id kind, (graph.node? id).map Node.kind = some kind ↔ (id, kind) ∈ nodes
  pristine : ∀ id node, graph.node? id = some node →
    node = { Node.ofKind node.kind with fanouts := node.fanouts, label := node.label }

def label? (graph : Graph) (id : Nat) : Option String :=
  (graph.node? id).bind Node.label

/-- One graph grows into another one by these nodes, in this order. -/
def GrowsBy (before : Graph) : (added : List (Nat × Kind)) → (after : Graph) → Prop
  | [], after => after = before
  | (id, kind) :: others, after =>
      ∃ middle, before.Grows id kind middle ∧ GrowsBy middle others after

theorem Grows.kind_iff {before after : Graph} {id : Nat} {kind : Kind}
    (grows : before.Grows id kind after) (other : Nat) (otherKind : Kind) :
    (after.node? other).map Node.kind = some otherKind ↔
      (before.node? other).map Node.kind = some otherKind ∨ (other, otherKind) = (id, kind) := by
  rw [Prod.mk.injEq]
  constructor
  · intro later
    rcases Option.map_eq_some_iff.mp later with ⟨changed, found, rfl⟩
    rcases grows.source found with ⟨rfl, rfl⟩ | ⟨node, earlier, sameKind, -, -⟩
    · exact .inr ⟨rfl, rfl⟩
    · exact .inl (by rw [earlier, Option.map_some, sameKind])
  · rintro (earlier | ⟨rfl, rfl⟩)
    · rcases Option.map_eq_some_iff.mp earlier with ⟨node, found, rfl⟩
      rcases grows.kept other node found with ⟨changed, later, sameKind, -, -⟩
      rw [later, Option.map_some, sameKind]
    · rw [grows.added]
      rfl

/-! ## What a graph comprises -/

theorem comprises_empty : empty.Comprises [(0, .constant)] where
  kind id kind := by
    cases id with
    | zero =>
        rw [List.mem_singleton, Prod.mk.injEq]
        exact ⟨fun found => ⟨rfl, (Option.some.inj found).symm⟩, fun same => by rw [same.2]; rfl⟩
    | succ id => simp [node?, empty]
  pristine id node found := by
    cases id with
    | zero =>
        cases Option.some.inj found
        rfl
    | succ id => simp [node?, empty] at found

namespace Comprises

variable {graph after : Graph} {nodes others : List (Nat × Kind)}
  (comprises : graph.Comprises nodes)

include comprises

theorem of_node?_eq (same : ∀ id, after.node? id = graph.node? id) : after.Comprises nodes where
  kind id := by
    rw [same]
    exact comprises.kind id
  pristine id := by
    rw [same]
    exact comprises.pristine id

theorem congr (same : ∀ entry, entry ∈ nodes ↔ entry ∈ others) : graph.Comprises others where
  kind id kind := (comprises.kind id kind).trans (same (id, kind))
  pristine := comprises.pristine

theorem exists_node {id : Nat} {kind : Kind} (member : (id, kind) ∈ nodes) :
    ∃ node, graph.node? id = some node ∧ node.kind = kind :=
  Option.map_eq_some_iff.mp ((comprises.kind id kind).mpr member)

theorem mem {id : Nat} {node : Node} (found : graph.node? id = some node) :
    (id, node.kind) ∈ nodes :=
  (comprises.kind id node.kind).mp (by rw [found, Option.map_some])

theorem node?_eq_none {id : Nat} (unlisted : ∀ entry ∈ nodes, entry.1 ≠ id) :
    graph.node? id = none := by
  cases found : graph.node? id with
  | none => rfl
  | some node => exact absurd rfl (unlisted _ (comprises.mem found))

theorem grows {id : Nat} {kind : Kind} (grows : graph.Grows id kind after) :
    after.Comprises (nodes ++ [(id, kind)]) where
  kind other otherKind := by
    rw [grows.kind_iff, comprises.kind, List.mem_append, List.mem_singleton]
  pristine other changed later := by
    rcases grows.source later with ⟨rfl, rfl⟩ | ⟨node, earlier, -, -, -⟩
    · rfl
    · have still := grows.still other node changed earlier later
      have sameKind : changed.kind = node.kind := by rw [still]
      have sameLabel : changed.label = node.label := by rw [still]
      rw [sameKind, sameLabel]
      exact still.trans (congrArg (fun node => { node with fanouts := changed.fanouts })
        (comprises.pristine other node earlier))

end Comprises

theorem Grows.label? {before after : Graph} {id : Nat} {kind : Kind}
    (grows : before.Grows id kind after) (other : Nat) :
    after.label? other = before.label? other := by
  rw [Graph.label?, Graph.label?]
  by_cases same : other = id
  · rw [same, grows.added, grows.fresh]
    rfl
  · cases found : before.node? other with
    | none => rw [grows.missing other same found]
    | some node =>
        rcases grows.kept other node found with ⟨changed, later, -, -, -⟩
        rw [later, Option.bind_some, Option.bind_some, grows.still other node changed found later]

namespace GrowsBy

variable {before middle after : Graph} {added more : List (Nat × Kind)}

theorem trans (first : before.GrowsBy added middle) (second : middle.GrowsBy more after) :
    before.GrowsBy (added ++ more) after := by
  induction added generalizing before with
  | nil =>
      cases first
      exact second
  | cons entry others induction =>
      rcases first with ⟨next, grows, rest⟩
      exact ⟨next, grows, induction rest⟩

variable (grown : before.GrowsBy added after)

include grown

theorem comprises {nodes : List (Nat × Kind)} (comprises : before.Comprises nodes) :
    after.Comprises (nodes ++ added) := by
  induction added generalizing before nodes with
  | nil =>
      cases grown
      rwa [List.append_nil]
  | cons entry others induction =>
      rcases grown with ⟨next, grows, rest⟩
      rw [List.append_cons]
      exact induction rest (comprises.grows grows)

theorem kind_iff (id : Nat) (kind : Kind) : (after.node? id).map Node.kind = some kind ↔
    (before.node? id).map Node.kind = some kind ∨ (id, kind) ∈ added := by
  induction added generalizing before with
  | nil =>
      cases grown
      simp
  | cons entry others induction =>
      rcases grown with ⟨next, grows, rest⟩
      rw [induction rest, grows.kind_iff, List.mem_cons, or_assoc]

theorem isDefined_iff (id : Nat) :
    after.isDefined id = true ↔ before.isDefined id = true ∨ id ∈ added.map Prod.fst := by
  have defined : ∀ graph : Graph, graph.isDefined id = true ↔
      ∃ kind, (graph.node? id).map Node.kind = some kind := by
    intro graph
    rw [isDefined, ← Option.isSome_map, Option.isSome_iff_exists]
  simp [defined, grown.kind_iff, exists_or]

theorem isDefined_fanin {id : Nat} {kind : Kind} (member : (id, kind) ∈ added) {edge : Literal}
    (read : edge ∈ kind.fanins) : after.isDefined edge.node = true := by
  induction added generalizing before with
  | nil => cases member
  | cons entry others induction =>
      rcases grown with ⟨next, grows, rest⟩
      rcases List.mem_cons.mp member with rfl | inside
      · rcases grows.readable edge read with ⟨node, found, -⟩
        rcases grows.kept edge.node node found with ⟨changed, later, -, -, -⟩
        exact (GrowsBy.isDefined_iff rest edge.node).mpr (.inl (by rw [isDefined, later]; rfl))
      · exact induction rest inside

theorem label? (id : Nat) : after.label? id = before.label? id := by
  induction added generalizing before with
  | nil =>
      cases grown
      rfl
  | cons entry others induction =>
      rcases grown with ⟨next, grows, rest⟩
      rw [induction rest, grows.label?]

theorem inputs :
    after.inputs = before.inputs ++ (added.filter (·.2.isInput)).map Prod.fst := by
  induction added generalizing before with
  | nil =>
      cases grown
      exact (List.append_nil _).symm
  | cons entry others induction =>
      rcases grown with ⟨next, grows, rest⟩
      rw [induction rest, grows.inputs, List.filter_cons]
      split <;> simp

theorem outputs :
    after.outputs = before.outputs ++ (added.filter (·.2.isOutput)).map Prod.fst := by
  induction added generalizing before with
  | nil =>
      cases grown
      exact (List.append_nil _).symm
  | cons entry others induction =>
      rcases grown with ⟨next, grows, rest⟩
      rw [induction rest, grows.outputs, List.filter_cons]
      split <;> simp

theorem size_eq (inside : ∀ entry ∈ added, entry.1 < before.size) : after.size = before.size := by
  induction added generalizing before with
  | nil =>
      cases grown
      rfl
  | cons entry others induction =>
      rcases grown with ⟨next, grows, rest⟩
      rcases List.forall_mem_cons.mp inside with ⟨head, tail⟩
      have size : next.size = before.size := by
        rw [grows.size]
        exact Nat.max_eq_left head
      rw [induction rest (fun other member => size ▸ tail other member), size]

theorem fresh : ∀ entry ∈ added, before.node? entry.1 = none := by
  induction added generalizing before with
  | nil => exact fun _ member => nomatch member
  | cons entry others induction =>
      rcases grown with ⟨next, grows, rest⟩
      refine List.forall_mem_cons.mpr ⟨grows.fresh, ?_⟩
      intro other member
      cases found : before.node? other.1 with
      | none => rfl
      | some node =>
          rcases grows.kept other.1 node found with ⟨changed, later, -, -, -⟩
          rw [induction rest other member] at later
          cases later

theorem nodup : (added.map Prod.fst).Nodup := by
  induction added generalizing before with
  | nil => exact List.nodup_nil
  | cons entry others induction =>
      rcases grown with ⟨next, grows, rest⟩
      refine List.nodup_cons.mpr ⟨?_, induction rest⟩
      intro member
      rcases List.mem_map.mp member with ⟨other, otherMember, same⟩
      have free := GrowsBy.fresh rest other otherMember
      rw [same, grows.added] at free
      cases free

end GrowsBy

/-! ## What can be added -/

variable {graph : Graph} {id : Nat}

theorem exists_reserve {largest : Nat} (small : largest + 1 < 2 ^ 64) :
    ∃ after, graph.reserve largest = .ok after := by
  have fits : ¬UInt64.size ≤ largest + 1 := Nat.not_le.mpr small
  rw [reserve, if_neg fits]
  exact ⟨_, rfl⟩

theorem exists_claim (positive : id ≠ 0) (small : id + 1 < 2 ^ 64)
    (free : graph.node? id = none) (node : Node) : ∃ after, graph.claim id node = .ok after := by
  rcases (exists_reserve small : ∃ reserved, graph.reserve id = .ok reserved) with
    ⟨reserved, reserving⟩
  rcases reserve_eq_ok reserving with ⟨-, -, -, nodes⟩
  have unused : ¬reserved.isDefined id = true := by rw [isDefined, nodes, free]; simp
  simp only [claim, Result.guard_bind_eq_ok_iff, Result.bind_eq_ok_iff, Result.pure_eq_ok_iff]
  exact ⟨_, positive, reserved, reserving, unused, rfl⟩

theorem exists_addInputAt (positive : id ≠ 0) (small : id + 1 < 2 ^ 64)
    (free : graph.node? id = none) : ∃ after, graph.addInputAt id = .ok after := by
  rcases exists_claim positive small free (.ofKind .input) with ⟨claimed, claiming⟩
  simp only [addInputAt, Result.bind_eq_ok_iff, Result.pure_eq_ok_iff]
  exact ⟨_, claimed, claiming, rfl⟩

def Readable (graph : Graph) (literal : Literal) : Prop :=
  ∃ node, graph.node? literal.node = some node ∧ node.kind.isOutput = false

theorem exists_addGateAt {left right : Literal} (positive : id ≠ 0) (small : id + 1 < 2 ^ 64)
    (free : graph.node? id = none) (leftReadable : graph.Readable left)
    (rightReadable : graph.Readable right) :
    ∃ after, graph.addGateAt id left right = .ok after := by
  rcases exists_claim positive small free (.ofKind (.gate left right)) with ⟨claimed, claiming⟩
  simp only [addGateAt, Result.bind_eq_ok_iff, Result.pure_eq_ok_iff]
  exact ⟨_, (), checkFanin_eq_ok_iff.mpr leftReadable, (), checkFanin_eq_ok_iff.mpr rightReadable,
    claimed, claiming, rfl⟩

def Free (graph : Graph) (id : Nat) : Prop :=
  id ≠ 0 ∧ id + 1 < 2 ^ 64 ∧ graph.node? id = none

theorem free_of_claim {node : Node} {after : Graph} (success : graph.claim id node = .ok after) :
    graph.Free id := by
  have fresh := (claim_eq_ok success).2.1
  simp only [claim, Result.guard_bind_eq_ok_iff, Result.bind_eq_ok_iff] at success
  rcases success with ⟨positive, reserved, reserving, -⟩
  rw [reserve] at reserving
  split at reserving
  · cases reserving
  · rename_i fits
    exact ⟨positive, Nat.not_le.mp fits, fresh⟩

theorem exists_addInputAt_iff : (∃ after, graph.addInputAt id = .ok after) ↔ graph.Free id := by
  constructor
  · rintro ⟨after, success⟩
    simp only [addInputAt, Result.bind_eq_ok_iff] at success
    rcases success with ⟨claimed, claiming, -⟩
    exact free_of_claim claiming
  · rintro ⟨positive, small, free⟩
    exact exists_addInputAt positive small free

theorem exists_addGateAt_iff {left right : Literal} :
    (∃ after, graph.addGateAt id left right = .ok after) ↔
      graph.Free id ∧ graph.Readable left ∧ graph.Readable right := by
  constructor
  · rintro ⟨after, success⟩
    simp only [addGateAt, Result.bind_eq_ok_iff] at success
    rcases success with ⟨⟨⟩, leftChecked, ⟨⟩, rightChecked, claimed, claiming, -⟩
    exact ⟨free_of_claim claiming, checkFanin_eq_ok_iff.mp leftChecked,
      checkFanin_eq_ok_iff.mp rightChecked⟩
  · rintro ⟨⟨positive, small, free⟩, leftReadable, rightReadable⟩
    exact exists_addGateAt positive small free leftReadable rightReadable

theorem of_addGateAt_eq_error {left right : Literal} {failure : Error} (free : graph.Free id)
    (failed : graph.addGateAt id left right = .error failure) :
    ∃ fanin ∈ [left, right],
      (graph.node? fanin.node = none ∧ failure = .missingNode fanin.node) ∨
        ∃ node, graph.node? fanin.node = some node ∧ node.kind.isOutput = true := by
  rcases exists_claim free.1 free.2.1 free.2.2 (.ofKind (.gate left right)) with
    ⟨claimed, claiming⟩
  have checks : ∀ fanin, graph.checkFanin fanin = .error failure →
      (graph.node? fanin.node = none ∧ failure = .missingNode fanin.node) ∨
        ∃ node, graph.node? fanin.node = some node ∧ node.kind.isOutput = true := by
    intro fanin refused
    rw [checkFanin, node] at refused
    cases found : graph.node? fanin.node with
    | none =>
        rw [found] at refused
        cases refused
        exact .inl ⟨rfl, rfl⟩
    | some node =>
        cases output : node.kind.isOutput with
        | true => exact .inr ⟨node, rfl, output⟩
        | false => simp [found, output, bind, Except.bind, pure, Except.pure] at refused
  rw [addGateAt] at failed
  cases leftChecked : graph.checkFanin left with
  | error other =>
      rw [leftChecked] at failed
      cases failed
      exact ⟨left, List.mem_cons_self, checks left leftChecked⟩
  | ok done =>
      cases rightChecked : graph.checkFanin right with
      | error other =>
          rw [leftChecked, rightChecked] at failed
          cases failed
          exact ⟨right, by simp, checks right rightChecked⟩
      | ok done =>
          rw [leftChecked, rightChecked, claiming] at failed
          cases failed

theorem exists_addOutput {driver : Literal} (readable : graph.Readable driver) :
    ∃ after, graph.addOutput driver = .ok (graph.size, after) := by
  simp only [addOutput, Result.bind_eq_ok_iff, Result.pure_eq_ok_iff, Prod.mk.injEq]
  exact ⟨_, (), checkFanin_eq_ok_iff.mpr readable, trivial, rfl⟩

theorem addOutput_eq_ok {driver : Literal} {after : Graph}
    (success : graph.addOutput driver = .ok (id, after)) : id = graph.size := by
  simp only [addOutput, Result.bind_eq_ok_iff, Result.pure_eq_ok_iff, Prod.mk.injEq] at success
  rcases success with ⟨-, -, rfl, -⟩
  rfl

theorem Readable.grows {literal : Literal} {kind : Kind} {after : Graph}
    (readable : graph.Readable literal) (grows : graph.Grows id kind after) :
    after.Readable literal := by
  rcases readable with ⟨node, found, noOutput⟩
  rcases grows.kept literal.node node found with ⟨changed, later, sameKind, -, -⟩
  exact ⟨changed, later, by rw [sameKind, noOutput]⟩

theorem Comprises.readable {nodes : List (Nat × Kind)} (comprises : graph.Comprises nodes)
    {literal : Literal} {kind : Kind} (member : (literal.node, kind) ∈ nodes)
    (noOutput : kind.isOutput = false) : graph.Readable literal := by
  rcases comprises.exists_node member with ⟨node, found, rfl⟩
  exact ⟨node, found, noOutput⟩

/-! ## Graphs that comprise the same -/

/-- Graphs that differ in nothing but the order in which their nodes list consumers. -/
structure Alike (first second : Graph) : Prop where
  size : second.size = first.size
  inputs : second.inputs = first.inputs
  outputs : second.outputs = first.outputs
  missing : ∀ id, first.node? id = none → second.node? id = none
  node : ∀ id node, first.node? id = some node → ∃ fanouts, node.fanouts.Perm fanouts ∧
    second.node? id = some { node with fanouts }

namespace Comprises

theorem active {graph : Graph} {nodes : List (Nat × Kind)} (comprises : graph.Comprises nodes)
    {id : Nat} {node : Node} (found : graph.node? id = some node) : node.active = true := by
  rw [comprises.pristine id node found]
  rfl

theorem isActive_eq {graph : Graph} {nodes : List (Nat × Kind)} (comprises : graph.Comprises nodes)
    (id : Nat) : graph.isActive id = graph.isDefined id := by
  rw [isActive, isDefined]
  cases found : graph.node? id with
  | none => rfl
  | some node => simp [comprises.active found]

variable {first second : Graph} {nodes : List (Nat × Kind)} (left : first.Comprises nodes)
  (right : second.Comprises nodes)

include left right

theorem kind_eq (id : Nat) : (second.node? id).map Node.kind = (first.node? id).map Node.kind :=
  Option.ext fun kind => (right.kind id kind).trans (left.kind id kind).symm

theorem edgesFrom_eq (size : second.size = first.size) (driver : Nat) :
    second.edgesFrom driver = first.edgesFrom driver := by
  have fanins (id : Nat) : second.fanins id = first.fanins id := by
    change ((second.node? id).map (Kind.fanins ∘ Node.kind)).getD [] =
      ((first.node? id).map (Kind.fanins ∘ Node.kind)).getD []
    rw [← Option.map_map, ← Option.map_map, left.kind_eq right]
  have defined (id : Nat) : second.isDefined id = first.isDefined id := by
    have kinds := congrArg Option.isSome (left.kind_eq right id)
    rwa [Option.isSome_map, Option.isSome_map] at kinds
  have active : second.isActive = first.isActive := by
    funext id
    rw [right.isActive_eq, left.isActive_eq, defined]
  have between : second.edgesBetween driver = first.edgesBetween driver := by
    funext id
    rw [edgesBetween, edgesBetween, fanins]
  rw [edgesFrom, edgesFrom, ids, ids, size, active, between, funext defined]

theorem alike (wellFormed : first.WellFormed) (wellFormed' : second.WellFormed)
    (size : second.size = first.size) (inputs : second.inputs = first.inputs)
    (outputs : second.outputs = first.outputs)
    (labels : ∀ id, second.label? id = first.label? id) : first.Alike second where
  size := size
  inputs := inputs
  outputs := outputs
  missing id absent := by
    have kinds := left.kind_eq right id
    rw [absent] at kinds
    exact Option.map_eq_none_iff.mp kinds
  node id node found := by
    have kinds := left.kind_eq right id
    rw [found, Option.map_some] at kinds
    rcases Option.map_eq_some_iff.mp kinds with ⟨other, otherFound, kind⟩
    have pristine := left.pristine id node found
    have otherPristine := right.pristine id other otherFound
    have label : other.label = node.label := by simpa [label?, found, otherFound] using labels id
    have fanouts := wellFormed'.fanouts id other otherFound (right.active otherFound)
    rw [left.edgesFrom_eq right size] at fanouts
    refine ⟨other.fanouts,
      (wellFormed.fanouts id node found (left.active found)).trans fanouts.symm, ?_⟩
    rw [otherFound, otherPristine, pristine, kind, label]

end Comprises

end AndInverter.Graph
