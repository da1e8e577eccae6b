import AndInverter.Proofs.Passes.Pass
import AndInverter.Proofs.Reduction.Merging
import AndInverter.Proofs.Simulation.Session

namespace AndInverter

/-! Memberships. A node knows the position of its class, and the classes stand elsewhere. Only
the end of a session records positions; merges and sweeps leave all of them alone. -/

namespace Graph

variable {graph : Graph}

def membership? (graph : Graph) (id : Nat) : Option Membership :=
  (graph.node? id).bind Node.membership

/-! ## What leaves memberships alone -/

theorem membership?_mapNodes {change : Nat → Node → Node}
    (kept : ∀ id node, (change id node).membership = node.membership) (graph : Graph) :
    (graph.mapNodes change).membership? = graph.membership? := by
  funext id
  rw [membership?, membership?, node?_mapNodes]
  cases graph.node? id with
  | none => rfl
  | some node => exact kept id node

theorem membership?_replace {replaced : Graph} {replacement : Literal} {gate : Nat}
    (success : graph.replace replacement gate = .ok replaced) :
    replaced.membership? = graph.membership? := by
  rcases replace_eq_ok_iff.mp success with ⟨old, -, rfl⟩
  apply membership?_mapNodes
  intro id node
  rfl

theorem membership?_sweep (graph : Graph) : graph.sweep.membership? = graph.membership? := by
  apply membership?_mapNodes
  intro id node
  rw [sweepNode]
  split <;> rfl

theorem membership?_mergeEqual (graph : Graph) (first second : Literal) :
    (graph.mergeEqual first second).graph.membership? = graph.membership? := by
  rcases graph.mergeEqual_cases first second with ⟨same, -⟩ | ⟨keep, drop, -, success, -⟩
  · rw [same]
  · exact membership?_replace success

end Graph

theorem Pass.membership?_run {Memory : Type} (pass : Pass Memory) (graph : Graph) :
    (pass.run graph).graph.membership? = graph.membership? := by
  have keeps : pass.Keeps fun _ current => current.membership? = graph.membership? := by
    constructor
    · intro memory after current id holds judged
      exact holds
    · intro memory after current replaced id survivor holds judged success
      exact (Graph.membership?_replace success).trans holds
  rcases keeps.runFrom (.ofOutputs graph) pass.initial 0 graph rfl with ⟨memory, kept⟩
  exact kept

theorem Reduction.membership?_run {State : Type} [Backend State] (options : ReductionOptions)
    (graph : Graph) (partition : Partition) (backend : State) :
    (run options graph partition backend).graph.membership? = graph.membership? := by
  have keeps : Scan.Keeps State fun current => current.membership? = graph.membership? := by
    constructor
    intro current backend pivot member holds proved
    exact (current.membership?_mergeEqual pivot member).trans holds
  apply keeps.run _ options graph partition backend rfl
  intro current holds
  exact current.membership?_sweep.trans holds

/-! ## Recording -/

namespace Partition

variable {partition : Partition} {graph : Graph}

/-- A node that is on record at the position of a class is a member of that class, with the
recorded inverter. -/
def Agrees (partition : Partition) (graph : Graph) : Prop :=
  ∀ id membership members, graph.membership? id = some membership →
    partition.classes[membership.position]? = some members →
      ⟨id, membership.inverted⟩ ∈ members

theorem classOf?_eq_some_iff {id : Nat} {members : List Literal} :
    partition.classOf? id graph = some members ↔ ∃ membership,
      graph.membership? id = some membership ∧
        partition.classes[membership.position]? = some members := by
  simp only [classOf?, Graph.membership?, bind, Option.bind_eq_some_iff]
  constructor
  · rintro ⟨node, found, membership, recorded, listed⟩
    exact ⟨membership, ⟨node, found, recorded⟩, listed⟩
  · rintro ⟨membership, ⟨node, found, recorded⟩, listed⟩
    exact ⟨node, found, membership, recorded, listed⟩

theorem agrees_empty (graph : Graph) : empty.Agrees graph :=
  fun _ _ _ _ listed => nomatch listed

theorem Agrees.of_membership? {after : Graph} (agrees : partition.Agrees graph)
    (same : after.membership? = graph.membership?) : partition.Agrees after := by
  intro id membership members recorded listed
  rw [same] at recorded
  exact agrees id membership members recorded listed

theorem agrees_of_blank (blank : ∀ id, graph.membership? id = none) : partition.Agrees graph := by
  intro id membership members recorded listed
  rw [blank] at recorded
  cases recorded

theorem mem_memberships_iff {id : Nat} {membership : Membership} :
    (id, membership) ∈ partition.memberships ↔ ∃ members,
      partition.classes[membership.position]? = some members ∧
        ⟨id, membership.inverted⟩ ∈ members := by
  simp only [memberships, List.mem_flatMap, List.mem_map, Prod.exists]
  constructor
  · rintro ⟨members, position, listed, member, inside, equal⟩
    cases equal
    exact ⟨members, List.mem_zipIdx_iff_getElem?.mp listed, inside⟩
  · rintro ⟨members, listed, inside⟩
    exact ⟨members, membership.position, List.mem_zipIdx_iff_getElem?.mpr listed, _, inside, rfl⟩

theorem membership?_forget (graph : Graph) (id : Nat) : (forget graph).membership? id = none := by
  rw [Graph.membership?, forget, Graph.node?_mapNodes]
  cases graph.node? id <;> rfl

theorem membership?_record {entries : List (Nat × Membership)} {id : Nat}
    {membership : Membership}
    (recorded : (record entries graph).1.membership? id = some membership) :
    (id, membership) ∈ entries ∨ graph.membership? id = some membership := by
  induction entries generalizing graph with
  | nil => exact .inr recorded
  | cons entry entries induction =>
      simp only [record, Graph.update] at recorded
      cases found : graph.node entry.1 with
      | error failure =>
          rw [found] at recorded
          exact .inr recorded
      | ok node =>
          rw [found] at recorded
          rcases induction recorded with later | here
          · exact .inl (List.mem_cons_of_mem entry later)
          · rw [Graph.membership?, Graph.node?_modify] at here
            split at here
            · rename_i same
              rw [← same, Graph.node_eq_ok_iff.mp found] at here
              cases here
              subst same
              exact .inl (List.mem_cons_self ..)
            · exact .inr here

/-- Recording makes classes and memberships agree, also when it fails half way: what was on
record before is forgotten first. -/
theorem agrees_recordIn (partition : Partition) (graph : Graph) :
    partition.Agrees (partition.recordIn graph).1 := by
  intro id membership members recorded listed
  rcases membership?_record recorded with now | before
  · rcases mem_memberships_iff.mp now with ⟨others, otherListed, inside⟩
    rw [listed] at otherListed
    cases otherListed
    exact inside
  · rw [membership?_forget] at before
    cases before

end Partition

/-! ## Sessions -/

/-- The classes that a session leaves agree with what it has recorded, unless its simulation has
failed: then it has recorded nothing, and what is on record stems from before. -/
theorem Session.Conducted.agrees_or_failed {graph : Graph} {session : Session}
    (conducted : Conducted graph session) :
    session.partition.Agrees session.graph ∨
      session.graph.membership? = graph.membership? ∧
        ∃ failure, session.result = .error failure := by
  rcases conducted.exists_run with ⟨Source, stimulus, source, log, rfl⟩
  cases simulation : (simulated graph source log).failure with
  | none =>
      rcases run_of_finished simulation with ⟨-, partition, final, -⟩
      rw [partition, final]
      exact .inl (Partition.agrees_recordIn _ _)
  | some failure =>
      rw [Session.run, ← simulated, simulation]
      exact .inr ⟨graph.membership?_sweep, failure, rfl⟩

end AndInverter
