import AndInverter.Word
import AndInverter.Literal
import AndInverter.Error
import AndInverter.Text.Blank
import AndInverter.Text.Numeral
import AndInverter.Text.Line
import AndInverter.Graph.Node
import AndInverter.Graph.Basic
import AndInverter.Graph.Construction
import AndInverter.Graph.Replacement
import AndInverter.Graph.Edit
import AndInverter.Traversal.Room
import AndInverter.Traversal.Marks
import AndInverter.Traversal.PostOrder
import AndInverter.Traversal.Cone
import AndInverter.Traversal.DepthFirst
import AndInverter.Traversal.TopologicalSort
import AndInverter.Graph.Integrity
import AndInverter.Journal
import AndInverter.Passes.Sweep
import AndInverter.Passes.Pass
import AndInverter.Passes.Removal
import AndInverter.Passes.StructuralHash
import AndInverter.Passes.Simplification
import AndInverter.Aiger.Header
import AndInverter.Aiger.Section
import AndInverter.Aiger.Placement
import AndInverter.Aiger.Reading
import AndInverter.Aiger.File
import AndInverter.Simulation.Words
import AndInverter.Simulation.Batch
import AndInverter.Simulation.Xoshiro
import AndInverter.Simulation.Stimulus
import AndInverter.Simulation.Sources
import AndInverter.Simulation.Patterns
import AndInverter.Simulation.Evaluation
import AndInverter.Partition
import AndInverter.Simulation.Session
import AndInverter.Simulation.Options
import AndInverter.Sat.Formula
import AndInverter.Sat.Splitting
import AndInverter.Sat.Decision
import AndInverter.Sat.Derivation
import AndInverter.Sat.Activity
import AndInverter.Sat.Ranking
import AndInverter.Sat.Search.Trail
import AndInverter.Sat.Search.Spares
import AndInverter.Sat.Search.State
import AndInverter.Sat.Search.Numbering
import AndInverter.Sat.Search.Settling
import AndInverter.Sat.Search.Loading
import AndInverter.Sat.Search.Propagation
import AndInverter.Sat.Search.Learning
import AndInverter.Sat.Search
import AndInverter.Sat.Backend
import AndInverter.Sat.Solver
import AndInverter.Sat.Lawful
import AndInverter.Sat.Transcript
import AndInverter.Equivalence.Encoding
import AndInverter.Equivalence.Query
import AndInverter.Reduction
import AndInverter.Meaning.Value
import AndInverter.Meaning.WellFormed
import AndInverter.Proofs.Graph.Edges
import AndInverter.Proofs.Graph.Frame
import AndInverter.Proofs.Graph.Replacement
import AndInverter.Proofs.Graph.Replay
import AndInverter.Proofs.Traversal.Moves
import AndInverter.Proofs.Traversal.PostOrder
import AndInverter.Proofs.Traversal.Cone
import AndInverter.Proofs.Graph.Sweep
import AndInverter.Proofs.Graph.Annotations
import AndInverter.Proofs.Passes.Pass
import AndInverter.Proofs.Passes.Simplification
import AndInverter.Proofs.Passes.StructuralHash
import AndInverter.Proofs.Traversal.DepthFirst
import AndInverter.Proofs.Equivalence.Encoding
import AndInverter.Proofs.Equivalence.Query
import AndInverter.Proofs.Reduction.Merging
import AndInverter.Proofs.Graph.Consistency
import AndInverter.Proofs.Graph.Tidiness
import AndInverter.Proofs.Transformation
import AndInverter.Proofs.Aiger.Reading
import AndInverter.Proofs.Operation
import AndInverter.Proofs.Simulation.Words
import AndInverter.Proofs.Simulation.Evaluation
import AndInverter.Proofs.Partition.Refinement
import AndInverter.Proofs.Partition.Coverage
import AndInverter.Proofs.Simulation.Session
import AndInverter.Proofs.Reduction.Separation
import AndInverter.Proofs.Reduction.Completeness
import AndInverter.Proofs.Partition.Signatures
import AndInverter.Proofs.Traversal.Rewiring
import AndInverter.Proofs.Traversal.Standing
import AndInverter.Proofs.Passes.Progress
import AndInverter.Proofs.Passes.Hashed
import AndInverter.Proofs.Aiger.Circuit
import AndInverter.Proofs.Aiger.Placement
import AndInverter.Proofs.Aiger.Building
import AndInverter.Proofs.Aiger.Sections
import AndInverter.Proofs.Aiger.Symbols
import AndInverter.Proofs.Traversal.TopologicalSort
import AndInverter.Proofs.Graph.Integrity
import AndInverter.Proofs.Aiger.Soundness
import AndInverter.Proofs.Aiger.Printing
import AndInverter.Proofs.Passes.Simplified
import AndInverter.Proofs.Graph.Declarations
import AndInverter.Proofs.Arising
import AndInverter.Proofs.Simulation.Inputs
import AndInverter.Simulation.Simulator
import AndInverter.Proofs.Simulation.Simulator
import AndInverter.Proofs.Simulation.Report
import AndInverter.Proofs.Partition.Functions
import AndInverter.Proofs.Simulation.Exhaustive
import AndInverter.Proofs.Reduction.Exhaustive
import AndInverter.Proofs.Journal
import AndInverter.Proofs.Reduction.Views
import AndInverter.Proofs.Reduction.Interruption
import AndInverter.Proofs.Simulation.Stopping
import AndInverter.Proofs.Partition.Memberships
import AndInverter.Proofs.Workspace
import AndInverter.Proofs.Graph.Edit
import AndInverter.Proofs.Graph.InPlace
import AndInverter.Proofs.Graph.Substitution
import AndInverter.Proofs.Passes.Removal
import AndInverter.Proofs.Persistence
import AndInverter.Proofs.Constructible
import AndInverter.Proofs.Traversal.Blocks
import AndInverter.Proofs.Partition.Regular
import AndInverter.Proofs.Equivalence.Calls
import AndInverter.Proofs.Reduction.Questions
import AndInverter.Proofs.Reduction.Budget
import AndInverter.Proofs.Reduction.Accounting
import AndInverter.Proofs.Simulation.Patterns
import AndInverter.Proofs.Partition.Finalization
import AndInverter.Proofs.Simulation.Enumeration
import AndInverter.Proofs.Aiger.Header
import AndInverter.Proofs.Traversal.Interleaving
import AndInverter.Proofs.Reduction.Direction
