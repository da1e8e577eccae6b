import AndInverter.Equivalence.Query
import AndInverter.Partition
import AndInverter.Passes.StructuralHash
import AndInverter.Passes.Sweep
import AndInverter.Simulation.Options
import AndInverter.Traversal.Cone

namespace AndInverter

/-! Functional reduction: the candidates that simulation could not tell apart are
compared by queries, and what is proved equal is merged. -/

inductive Stage
  | idle
  | simulating
  | partitioned
  | verifying
  | swept
deriving DecidableEq, Repr

structure ReductionOptions where
  /-- so many failed comparisons in a row end the search for equals of a pivot; the
  next pivot counts anew -/
  maxFailures : Nat := 8
deriving DecidableEq, Repr

structure ReductionReport where
  proofs : Nat := 0
  disproofs : Nat := 0
  merges : Nat := 0
deriving DecidableEq, Repr

/-- The pair that a merge keeps and drops, in this order: the second literal is
dropped when it is a gate outside the cone of the first one, which keeps the graph
free of cycles; else the first one is. -/
def Graph.mergeDirection (first second : Literal) (graph : Graph) : Literal × Literal :=
  if graph.isGate second.node && !graph.coneContains first.node second.node then (first, second)
  else (second, first)

def Graph.mergeEqual (first second : Literal) (graph : Graph) : Outcome Bool :=
  let (keep, drop) := graph.mergeDirection first second
  if !graph.isGate drop.node then ⟨graph, [], .ok false⟩
  else
    let survivor := keep.xor drop.inverted
    let note := Entry.note (.merging drop.node survivor)
    match graph.replace survivor drop.node with
    | .error failure => ⟨graph, [note], .error failure⟩
    | .ok merged => ⟨merged, [note, .event (.merge .reduction survivor drop.node)], .ok true⟩

structure Scan (State : Type) where
  graph : Graph
  backend : State
  report : ReductionReport
  journal : Journal

namespace Scan

variable {State : Type} [Backend State]

def append (entries : Journal) (scan : Scan State) : Scan State :=
  { scan with journal := entries.reverse ++ scan.journal }

/-- Compares a pivot with another member, and merges them when they are equal. The
answer is none for a disproof; for a proof it tells whether there was a merge. -/
def compare (pivot member : Literal) (scan : Scan State) : Scan State × Result (Option Bool) :=
  let query := scan.graph.prove pivot member scan.backend
  let asked := { scan with backend := query.backend }.append query.journal
  match query.result with
  | .error failure => (asked, .error failure)
  | .ok false =>
      ({ asked with report := { asked.report with disproofs := asked.report.disproofs + 1 } },
        .ok none)
  | .ok true =>
      let proofs := asked.report.proofs + 1
      let merged := asked.graph.mergeEqual pivot member
      let after := { asked with graph := merged.graph }.append merged.journal
      match merged.result with
      | .error failure => ({ after with report := { asked.report with proofs } }, .error failure)
      | .ok isMerged =>
          let merges := asked.report.merges + isMerged.toNat
          ({ after with report := { asked.report with proofs, merges } }, .ok (some isMerged))

/-- Compares a pivot with the members after it that are active, until there were
too many disproofs in a row, or the pivot itself is merged away. -/
def scanPivot (limit : Nat) (pivot : Literal) :
    (members : List Literal) → (failures : Nat) → Scan State → Scan State × Option Error
  | [], _, scan => (scan, none)
  | member :: others, failures, scan =>
      if !scan.graph.isActive member.node then scanPivot limit pivot others failures scan
      else if limit ≤ failures then (scan, none)
      else
        match scan.compare pivot member with
        | (after, .error failure) => (after, some failure)
        | (after, .ok none) => scanPivot limit pivot others (failures + 1) after
        | (after, .ok (some isMerged)) =>
            if isMerged && after.graph.isActive member.node then (after, none)
            else scanPivot limit pivot others 0 after

def scanClass (limit : Nat) : (members : List Literal) → Scan State → Scan State × Option Error
  | [], scan => (scan, none)
  | pivot :: others, scan =>
      if !scan.graph.isActive pivot.node then scanClass limit others scan
      else
        match scanPivot limit pivot others 0 scan with
        | (after, some failure) => (after, some failure)
        | (after, none) => scanClass limit others after

def scanClasses (limit : Nat) :
    (classes : List (List Literal)) → Scan State → Scan State × Option Error
  | [], scan => (scan, none)
  | members :: others, scan =>
      match scanClass limit members scan with
      | (after, some failure) => (after, some failure)
      | (after, none) => scanClasses limit others after

end Scan

structure Reduction (State : Type) where
  graph : Graph
  partition : Partition
  backend : State
  stage : Stage
  journal : Journal
  result : Result ReductionReport

namespace Reduction

variable {State : Type} [Backend State]

/-- Compares and merges the members of the given classes. At the end the graph is
swept and no class is left; a failure leaves the merges made before it, and the
classes. -/
def run (options : ReductionOptions) (graph : Graph) (partition : Partition) (backend : State) :
    Reduction State :=
  let (scan, failure?) :=
    Scan.scanClasses options.maxFailures partition.classes ⟨graph, backend, {}, []⟩
  let journal := scan.journal.reverse
  match failure? with
  | some failure =>
      { graph := scan.graph, partition, backend := scan.backend, stage := .verifying, journal,
        result := .error failure }
  | none =>
      let report := scan.report
      { graph := scan.graph.sweep, partition := .empty, backend := scan.backend, stage := .swept
        journal := journal ++ (Journal.ofSweep scan.graph).silenced ++
          [.note (.reduced report.proofs report.disproofs report.merges)]
        result := .ok report }

def after (earlier : Journal) (reduction : Reduction State) : Reduction State :=
  { reduction with journal := earlier ++ reduction.journal }

def reduce (options : ReductionOptions) (simulation : SimulationOptions) (graph : Graph)
    (backend : State) : Reduction State :=
  let hashed := structuralHash.run graph
  match hashed.result with
  | .error failure =>
      { graph := hashed.graph, partition := .empty, backend, stage := .idle,
        journal := hashed.journal, result := .error failure }
  | .ok _ =>
      let session := Session.madeUp hashed.graph simulation .absent
      match session.result with
      | .error failure =>
          { graph := session.graph, partition := session.partition, backend, stage := .simulating,
            journal := hashed.journal ++ session.journal, result := .error failure }
      | .ok _ =>
          (run options session.graph session.partition backend).after
            (hashed.journal ++ session.journal)

end Reduction

end AndInverter
