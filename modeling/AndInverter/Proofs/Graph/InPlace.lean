import AndInverter.Proofs.Graph.Edit
import AndInverter.Proofs.Graph.Tidiness

namespace AndInverter

/-! Replacing a gate in place. Where a graph is linked, the replacement in place differs from
that of the graph as a whole in what inactive nodes list, if at all; where it is tidy, the two
are the same. -/

attribute [ext] Node

namespace Graph

variable {graph : Graph} {replacement : Literal} {gate : Nat} {old : Node}

theorem redirect_redirect (different : replacement.node ≠ gate) (edge : Literal) :
    redirect replacement gate (redirect replacement gate edge) =
      redirect replacement gate edge := by
  by_cases same : edge.node = gate
  · exact redirect_of_ne (by rwa [redirect_of_eq same])
  · rw [redirect_of_ne same, redirect_of_ne same]

theorem rewire_rewire (different : replacement.node ≠ gate) (node : Node) :
    (node.rewire (redirect replacement gate)).rewire (redirect replacement gate) =
      node.rewire (redirect replacement gate) := by
  have twice : redirect replacement gate ∘ redirect replacement gate = redirect replacement gate :=
    funext (redirect_redirect different)
  simp only [Node.rewire, Kind.mapFanins_mapFanins, twice]

theorem Linked.ne_of_mem_fanouts (linked : graph.Linked) (found : graph.node? gate = some old)
    {id : Nat} {node : Node} (other : graph.node? id = some node) (active : node.active = true)
    (unread : id ∉ old.fanins.map Literal.node) {fanout : Literal}
    (member : fanout ∈ node.fanouts) : fanout.node ≠ gate := by
  intro same
  have edge := ((linked.mem_fanouts_iff other active).mp member).2
  rw [same, fanins_of_node? found] at edge
  exact unread (List.mem_map_of_mem (f := Literal.node) edge)

def editNode (replacement : Literal) (gate : Nat) (old : Node) (id : Nat) (node : Node) : Node :=
  let cleared := if id = gate then node.clearFanouts else node
  let rewired := if id ∈ old.fanouts.map Literal.node
    then cleared.rewire (redirect replacement gate) else cleared
  let left := if id ∈ old.fanins.map Literal.node then rewired.dropFanouts (· = gate) else rewired
  let joined := if id = replacement.node
    then left.addFanouts (old.fanouts.map (·.xor replacement.inverted)) else left
  if id = gate then joined.retire else joined

theorem kind_editNode (replacement : Literal) (gate : Nat) (old : Node) (id : Nat) (node : Node) :
    (editNode replacement gate old id node).kind =
      (replaceInNode replacement gate old.fanouts id node).kind := by
  have listed : (old.fanouts.any (·.node = id) = true) = (id ∈ old.fanouts.map Literal.node) := by
    simp only [List.any_eq_true, decide_eq_true_eq, List.mem_map]
  simp only [editNode, apply_ite Node.kind, Node.retire, Node.addFanouts, Node.dropFanouts,
    Node.rewire, Node.clearFanouts, ite_self, replaceInNode, listed]

theorem active_editNode (replacement : Literal) (gate : Nat) (old : Node) (id : Nat)
    (node : Node) : (editNode replacement gate old id node).active =
      (replaceInNode replacement gate old.fanouts id node).active := by
  simp only [editNode, apply_ite Node.active, Node.retire, Node.addFanouts, Node.dropFanouts,
    Node.rewire, Node.clearFanouts, ite_self, replaceInNode]
  by_cases same : id = gate <;> simp [same]

theorem fanouts_editNode (replacement : Literal) (gate : Nat) (old : Node) (id : Nat)
    (node : Node) : (editNode replacement gate old id node).fanouts =
      let cleared := if id = gate then [] else node.fanouts
      let left := if id ∈ old.fanins.map Literal.node
        then cleared.filter fun fanout => !decide (fanout.node = gate) else cleared
      if id = replacement.node then left ++ old.fanouts.map (·.xor replacement.inverted)
      else left := by
  simp only [editNode, apply_ite Node.fanouts, Node.retire, Node.addFanouts, Node.dropFanouts,
    Node.rewire, Node.clearFanouts, ite_self]

theorem label_editNode (replacement : Literal) (gate : Nat) (old : Node) (id : Nat)
    (node : Node) : (editNode replacement gate old id node).label = node.label := by
  simp only [editNode, apply_ite Node.label, Node.retire, Node.addFanouts, Node.dropFanouts,
    Node.rewire, Node.clearFanouts, ite_self]

/-- At a node that lists the gate only where the gate reads it, the replacement in place does
what that of the graph as a whole does. -/
theorem editNode_eq_replaceInNode (different : replacement.node ≠ gate) {id : Nat} {node : Node}
    (unlisted : id ∉ old.fanins.map Literal.node → ∀ fanout ∈ node.fanouts, fanout.node ≠ gate) :
    editNode replacement gate old id node =
      replaceInNode replacement gate old.fanouts id node := by
  apply Node.ext
  · exact kind_editNode replacement gate old id node
  · rw [fanouts_editNode, replaceInNode]
    by_cases same : id = gate
    · have noTarget : id ≠ replacement.node := fun equal => different (equal ▸ same)
      simp only [if_pos same, if_neg noTarget, List.filter_nil, ite_self]
    · have forgotten : (if id ∈ old.fanins.map Literal.node
          then node.fanouts.filter fun fanout => !decide (fanout.node = gate) else node.fanouts) =
            node.fanouts.filter (·.node ≠ gate) := by
        split
        · simp only [ne_eq, decide_not]
        · rename_i unread
          symm
          apply List.filter_eq_self.mpr
          exact fun fanout member => decide_eq_true (unlisted unread fanout member)
      simp only [if_neg same, forgotten]
  · exact active_editNode replacement gate old id node
  · exact label_editNode replacement gate old id node
  · simp only [editNode, apply_ite Node.signature, Node.retire, Node.addFanouts,
      Node.dropFanouts, Node.rewire, Node.clearFanouts, ite_self, replaceInNode]
  · simp only [editNode, apply_ite Node.membership, Node.retire, Node.addFanouts,
      Node.dropFanouts, Node.rewire, Node.clearFanouts, ite_self, replaceInNode]

namespace Replaceable

variable (replaceable : graph.Replaceable replacement gate old)

include replaceable

theorem isDefined_consumer (linked : graph.Linked) {id : Nat}
    (member : id ∈ old.fanouts.map Literal.node) : graph.isDefined id = true := by
  rcases List.mem_map.mp member with ⟨fanout, listed, rfl⟩
  exact isDefined_of_isActive
    ((linked.mem_fanouts_iff replaceable.found replaceable.active).mp listed).1

theorem isDefined_fanin (linked : graph.Linked) {id : Nat}
    (member : id ∈ old.fanins.map Literal.node) : graph.isDefined id = true := by
  rcases List.mem_map.mp member with ⟨edge, inside, rfl⟩
  rcases linked.readable gate edge.node replaceable.isActive_gate
    ⟨edge, by rwa [fanins_of_node? replaceable.found], rfl⟩ with ⟨node, found, -⟩
  exact isDefined_of_node? found

theorem run (linked : graph.Linked) : (Edit.replace replacement gate).run graph =
    .ok () (graph.mapNodes (editNode replacement gate old)) := by
  have gateDefined := isDefined_of_isActive replaceable.isActive_gate
  refine (Edit.run_bind_of_ok (Edit.run_inspect_of_ok
    (checkReplacement_eq_ok_iff.mpr replaceable))).trans ?_
  refine (Edit.run_bind_of_ok (Edit.run_update gateDefined _)).trans ?_
  rw [modify_eq_mapNodes]
  refine (Edit.run_bind_of_ok (Edit.run_forM_update (rewire_rewire replaceable.different)
    ?_)).trans ?_
  · intro id member
    rw [isDefined_mapNodes]
    exact replaceable.isDefined_consumer linked member
  rw [mapNodes_mapNodes]
  refine (Edit.run_bind_of_ok (Edit.run_forM_update (Node.dropFanouts_idem _) ?_)).trans ?_
  · intro id member
    rw [isDefined_mapNodes]
    exact replaceable.isDefined_fanin linked member
  rw [mapNodes_mapNodes]
  refine (Edit.run_bind_of_ok (Edit.run_update ?_ _)).trans ?_
  · rw [isDefined_mapNodes]
    exact isDefined_of_isActive replaceable.isActive_target
  rw [modify_eq_mapNodes, mapNodes_mapNodes]
  refine (Edit.run_update ?_ _).trans ?_
  · rwa [isDefined_mapNodes]
  rw [modify_eq_mapNodes, mapNodes_mapNodes]
  rfl

theorem sameLive (linked : graph.Linked) :
    (graph.mapNodes (replaceInNode replacement gate old.fanouts)).SameLive
      (graph.mapNodes (editNode replacement gate old)) := by
  apply SameLive.mapNodes
  intro id node found
  cases active : node.active with
  | true =>
      rw [editNode_eq_replaceInNode replaceable.different]
      exact fun unread fanout => linked.ne_of_mem_fanouts replaceable.found found active unread
  | false =>
      simp only [Node.liveWiring, kind_editNode, active_editNode]
      simp only [replaceInNode, active, Bool.false_and, Bool.false_eq_true, if_false]

theorem frame (linked : graph.Linked) :
    graph.Frame (graph.mapNodes (editNode replacement gate old)) := by
  apply Frame.mapNodes
  intro id node found
  have frame := linked.nodeFrame_replaceInNode replaceable found
  exact {
    kind := by rw [kind_editNode]; exact frame.kind
    label := label_editNode ..
    active := by rw [active_editNode]; exact frame.active
    kept := by rw [active_editNode]; exact frame.kept
    frozen := by rw [kind_editNode]; exact frame.frozen }

end Replaceable

/-- A replacement in place either is refused and changes nothing, or does to what counts what
the replacement of the graph as a whole does. -/
theorem Linked.run_replace_cases (linked : graph.Linked) (replacement : Literal) (gate : Nat) :
    (¬(∃ old, graph.Replaceable replacement gate old) ∧
      ∃ failure, (Edit.replace replacement gate).run graph = .error failure graph) ∨
    ∃ old replaced after, graph.Replaceable replacement gate old ∧
      graph.replace replacement gate = .ok replaced ∧
        (Edit.replace replacement gate).run graph = .ok () after ∧
          replaced.SameLive after ∧ graph.Frame after ∧
            after.node? gate = some (replaceInNode replacement gate old.fanouts gate old) := by
  cases checked : graph.checkReplacement replacement gate with
  | error failure =>
      refine .inl ⟨?_, failure, Edit.run_bind_of_error (Edit.run_inspect_of_error checked)⟩
      rintro ⟨old, replaceable⟩
      rw [checkReplacement_eq_ok_iff.mpr replaceable] at checked
      cases checked
  | ok old =>
      have replaceable := checkReplacement_eq_ok_iff.mp checked
      refine .inr ⟨old, _, _, replaceable, replace_eq_ok_iff.mpr ⟨old, replaceable, rfl⟩,
        replaceable.run linked, replaceable.sameLive linked, replaceable.frame linked, ?_⟩
      rw [node?_mapNodes, replaceable.found, Option.map_some,
        editNode_eq_replaceInNode replaceable.different]
      exact fun unread fanout =>
        linked.ne_of_mem_fanouts replaceable.found replaceable.found replaceable.active unread

theorem Tidy.run_replace (tidy : graph.Tidy) (replacement : Literal) (gate : Nat) :
    (Edit.replace replacement gate).run graph = match graph.replace replacement gate with
      | .ok replaced => .ok () replaced
      | .error failure => .error failure graph := by
  rw [Graph.replace]
  cases checked : graph.checkReplacement replacement gate with
  | error failure => exact Edit.run_bind_of_error (Edit.run_inspect_of_error checked)
  | ok old =>
      have replaceable := checkReplacement_eq_ok_iff.mp checked
      refine (replaceable.run tidy.toLinked).trans ?_
      refine congrArg (EStateM.Result.ok ()) (mapNodes_congr ?_)
      intro id node found
      apply editNode_eq_replaceInNode replaceable.different
      intro unread fanout member leads
      have reads := tidy.listed id node found fanout member
      rw [leads, Reads, fanins_of_node? replaceable.found] at reads
      exact unread (List.mem_map.mpr reads)

end Graph

end AndInverter
