import AndInverter.Passes.Simplification
import AndInverter.Proofs.Partition.Memberships
import AndInverter.Proofs.Reduction.Interruption

namespace AndInverter

/-! Workspaces. A graph and the classes of its nodes are worked on together by sessions, passes,
sweeps and reductions. A session that fails leaves classes that nobody has recorded, and
whatever was on record before it points into them; so the class of a node can be looked up
again only after another session, or a reduction, has come to its end. -/

inductive Simulation : Type 1
  | ofSource {Source : Type} [Stimulus Source] (source : Source) (log : PatternLog)
  | madeUp (options : SimulationOptions) (log : PatternLog)
  | ofText (text : Text.Bytes) (log : PatternLog)

namespace Simulation

def conduct (graph : Graph) : Simulation → Session
  | @ofSource _ _ source log => .run graph source log
  | .madeUp options log => .madeUp graph options log
  | .ofText text log => .ofText graph text log

theorem conducted (graph : Graph) (simulation : Simulation) :
    Session.Conducted graph (simulation.conduct graph) := by
  cases simulation with
  | ofSource source log => exact .run source log
  | madeUp options log => exact .madeUp options log
  | ofText text log => exact .ofText text log

end Simulation

/-- A graph, and the classes that its memberships point into. -/
structure Workspace where
  graph : Graph
  partition : Partition

namespace Workspace

def start (graph : Graph) : Workspace :=
  ⟨graph, .empty⟩

def classOf? (workspace : Workspace) (id : Nat) : Option (List Literal) :=
  workspace.partition.classOf? id workspace.graph

def hasRecords (workspace : Workspace) : Bool :=
  workspace.graph.ids.any fun id => (workspace.graph.membership? id).isSome

/-! ## Steps -/

inductive Step : Type 1
  | simulate (simulation : Simulation)
  | hash (table : GateTable)
  | simplify
  | sweep
  | reduceClasses {State : Type} [Backend State] (options : ReductionOptions) (backend : State)

def apply (workspace : Workspace) : Step → Workspace
  | .simulate simulation =>
      let session := simulation.conduct workspace.graph
      ⟨session.graph, session.partition⟩
  | .hash table => ⟨(table.hash workspace.graph).graph, workspace.partition⟩
  | .simplify => ⟨(simplification.run workspace.graph).graph, workspace.partition⟩
  | .sweep => ⟨workspace.graph.sweep, workspace.partition⟩
  | @Step.reduceClasses _ _ options backend =>
      let reduced := Reduction.run options workspace.graph workspace.partition backend
      ⟨reduced.graph, reduced.partition⟩

def applyAll (steps : List Step) (workspace : Workspace) : Workspace :=
  steps.foldl apply workspace

def isRenewedBy (workspace : Workspace) : Step → Bool
  | .simulate simulation => (simulation.conduct workspace.graph).result.isOk
  | @Step.reduceClasses _ _ options backend =>
      (Reduction.run options workspace.graph workspace.partition backend).result.isOk
  | _ => false

/-- A session that fails replaces the classes that memberships on record point into. -/
def isUpsetBy (workspace : Workspace) : Step → Bool
  | .simulate simulation =>
      workspace.hasRecords && !(simulation.conduct workspace.graph).result.isOk
  | _ => false

/-- The records can be relied on after the steps: whatever has upset them, some later step has
renewed them. -/
def isSettledAfter : List Step → Workspace → (settled : Bool) → Bool
  | [], _, settled => settled
  | step :: steps, workspace, settled =>
      isSettledAfter steps (workspace.apply step)
        (workspace.isRenewedBy step || settled && !workspace.isUpsetBy step)

/-! ## Agreement -/

variable {workspace : Workspace}

abbrev Agrees (workspace : Workspace) : Prop :=
  workspace.partition.Agrees workspace.graph

theorem agrees_of_not_hasRecords {graph : Graph} (partition : Partition)
    (blank : workspace.hasRecords = false)
    (same : graph.membership? = workspace.graph.membership?) : partition.Agrees graph := by
  apply Partition.agrees_of_blank
  intro id
  rw [same]
  by_contra recorded
  have defined : id ∈ workspace.graph.ids := by
    rw [Graph.mem_ids, Graph.isDefined]
    cases found : workspace.graph.node? id with
    | none =>
        rw [Graph.membership?, found] at recorded
        exact absurd rfl recorded
    | some node => rfl
  have some := List.any_eq_false.mp blank id defined
  exact some (Option.isSome_iff_ne_none.mpr recorded)

theorem agrees_of_isRenewedBy {step : Step} (renewed : workspace.isRenewedBy step = true) :
    (workspace.apply step).Agrees := by
  cases step with
  | simulate simulation =>
      rcases (simulation.conducted workspace.graph).agrees_or_failed with
        agrees | ⟨-, failure, failed⟩
      · exact agrees
      · rw [isRenewedBy, failed] at renewed
        cases renewed
  | reduceClasses options backend =>
      let reduced := Reduction.run options workspace.graph workspace.partition backend
      cases outcome : reduced.result with
      | error failure =>
          rw [isRenewedBy, outcome] at renewed
          cases renewed
      | ok report =>
          rw [Agrees, apply]
          simp only
          rw [(Reduction.run_of_ok outcome).2]
          exact Partition.agrees_empty _
  | hash | simplify | sweep => cases renewed

theorem Agrees.apply (agrees : workspace.Agrees) {step : Step}
    (calm : workspace.isUpsetBy step = false) : (workspace.apply step).Agrees := by
  cases step with
  | simulate simulation =>
      rcases (simulation.conducted workspace.graph).agrees_or_failed with
        agrees | ⟨same, failure, failed⟩
      · exact agrees
      · rw [isUpsetBy, failed] at calm
        exact agrees_of_not_hasRecords _ (by simpa [Except.isOk, Except.toBool] using calm) same
  | hash table => exact agrees.of_membership? (structuralHash.membership?_run workspace.graph)
  | simplify => exact agrees.of_membership? (simplification.membership?_run workspace.graph)
  | sweep => exact agrees.of_membership? workspace.graph.membership?_sweep
  | reduceClasses options backend =>
      have same := Reduction.membership?_run options workspace.graph workspace.partition backend
      let reduced := Reduction.run options workspace.graph workspace.partition backend
      cases outcome : reduced.result with
      | ok report =>
          apply agrees_of_isRenewedBy
          rw [isRenewedBy, outcome]
          rfl
      | error failure =>
          rw [Agrees, Workspace.apply]
          simp only
          rw [(Reduction.run_of_error outcome).2]
          exact agrees.of_membership? same

/-- By induction on the steps: the records agree with the classes whenever they are settled. -/
theorem agrees_applyAll (steps : List Step) {settled : Bool}
    (agrees : settled = true → workspace.Agrees)
    (after : workspace.isSettledAfter steps settled = true) :
    (workspace.applyAll steps).Agrees := by
  induction steps generalizing workspace settled with
  | nil => exact agrees after
  | cons step steps induction =>
      refine induction (fun settledNow => ?_) after
      rw [Bool.or_eq_true, Bool.and_eq_true, Bool.not_eq_true'] at settledNow
      rcases settledNow with renewed | ⟨before, calm⟩
      · exact agrees_of_isRenewedBy renewed
      · exact (agrees before).apply calm

/-! ## Looking a class up -/

/-- However sessions, passes, sweeps and reductions follow each other, the class that is found
for a node holds that node: provided that no session failed over memberships on record, or that
the last one that did was followed by a session or a reduction that ended well. -/
theorem mem_classOf? (graph : Graph) (steps : List Step)
    (settled : (start graph).isSettledAfter steps true = true) {id : Nat}
    {members : List Literal} (found : ((start graph).applyAll steps).classOf? id = some members) :
    ∃ member ∈ members, member.node = id := by
  have agrees := agrees_applyAll steps (fun _ => Partition.agrees_empty graph) settled
  rcases Partition.classOf?_eq_some_iff.mp found with ⟨membership, recorded, listed⟩
  exact ⟨_, agrees id membership members recorded listed, rfl⟩

def Step.onePattern (bits : List Word) (failure : Option Error) : Step :=
  .simulate (.ofSource (⟨[.ofWords bits 1], failure⟩ : ListedSource) .absent)

/-- A session upsets the records and a later one renews them; then the gate that hashing has
merged away is still found in the class of its twin. -/
theorem mem_classOf?_twins :
    let failure := Error.pattern (.refused "no more")
    let steps := [.onePattern [0, 0] none, .onePattern [1, 1] (some failure),
      .onePattern [1, 0] none, .hash ∅]
    let members := [.low, .plain 3, .plain 4, .plain 5]
    (start Graph.twins).isSettledAfter steps true = true ∧
      ((start Graph.twins).applyAll steps).classOf? 4 = some members ∧
        ∃ member ∈ members, member.node = 4 := by
  intro failure steps members
  have settled : (start Graph.twins).isSettledAfter steps true = true := by decide +kernel
  have found : ((start Graph.twins).applyAll steps).classOf? 4 = some members := by
    decide +kernel
  exact ⟨settled, found, mem_classOf? Graph.twins steps settled found⟩

/-- Without the condition it fails. All nodes are in one class after the first pattern, and a
second pattern tells two of them from the rest; when its session fails, these two are still on
record at the position of the first class. -/
theorem classOf?_foreign_twins :
    let failure := Error.pattern (.refused "no more")
    let steps := [.onePattern [0, 0] none, .onePattern [1, 1] (some failure)]
    Graph.twins.WellFormed ∧
      ((start Graph.twins).applyAll steps).classOf? 3 = some [.low, .plain 5] ∧
        ¬∃ member ∈ [Literal.low, .plain 5], member.node = 3 :=
  ⟨Graph.consistent_twins.toWellFormed, by decide +kernel, by decide⟩

end Workspace

end AndInverter
