import ReluMilp.Bounds.Arrays
import ReluMilp.Bounds.Interval
import ReluMilp.Fault
import ReluMilp.Formulation.Basic
import ReluMilp.Formulation.Build
import ReluMilp.Formulation.Entry
import ReluMilp.Formulation.Evaluation
import ReluMilp.Formulation.Jobs
import ReluMilp.Formulation.Mode
import ReluMilp.Formulation.Replacement
import ReluMilp.Formulation.Report
import ReluMilp.Formulation.Request
import ReluMilp.Formulation.Tightening
import ReluMilp.Milp.Exact
import ReluMilp.Milp.Feasible
import ReluMilp.Milp.Linear
import ReluMilp.Milp.Model
import ReluMilp.Milp.Parameters
import ReluMilp.Milp.Program
import ReluMilp.Milp.Tableau
import ReluMilp.Milp.Workspace
import ReluMilp.Network.Activation
import ReluMilp.Network.Basic
import ReluMilp.Network.Layer
import ReluMilp.Number.Binary
import ReluMilp.Number.Layout
import ReluMilp.Number.Shortest
import ReluMilp.Predictor.Arguments
import ReluMilp.Predictor.ChainDescription
import ReluMilp.Predictor.Draft
import ReluMilp.Predictor.LayerKinds
import ReluMilp.Predictor.LayerOptions
import ReluMilp.Predictor.LayerShapes
import ReluMilp.Predictor.LayerStack
import ReluMilp.Predictor.Registry
import ReluMilp.Predictor.Regressor
import ReluMilp.Predictor.StackDescription
import ReluMilp.Predictor.StepChain
import ReluMilp.Predictor.StepChecks
import ReluMilp.Predictor.StepKinds
import ReluMilp.Proofs.Actions
import ReluMilp.Proofs.Assembly
import ReluMilp.Proofs.Attainment
import ReluMilp.Proofs.Attempts
import ReluMilp.Proofs.Batches
import ReluMilp.Proofs.Blame
import ReluMilp.Proofs.Boxes
import ReluMilp.Proofs.Building
import ReluMilp.Proofs.Completeness
import ReluMilp.Proofs.Concurrency
import ReluMilp.Proofs.Configurations
import ReluMilp.Proofs.Conforming
import ReluMilp.Proofs.Container
import ReluMilp.Proofs.Corners
import ReluMilp.Proofs.Dispatch
import ReluMilp.Proofs.Doubles
import ReluMilp.Proofs.Elimination
import ReluMilp.Proofs.Enclosure
import ReluMilp.Proofs.Encoding
import ReluMilp.Proofs.Evaluating
import ReluMilp.Proofs.Exactness
import ReluMilp.Proofs.Exchanges
import ReluMilp.Proofs.Fallback
import ReluMilp.Proofs.Fixing
import ReluMilp.Proofs.Grammar
import ReluMilp.Proofs.Hulls
import ReluMilp.Proofs.Improving
import ReluMilp.Proofs.Jobs
import ReluMilp.Proofs.Limits
import ReluMilp.Proofs.Linear
import ReluMilp.Proofs.Lockstep
import ReluMilp.Proofs.Loosening
import ReluMilp.Proofs.Mirroring
import ReluMilp.Proofs.Namesakes
import ReluMilp.Proofs.Naming
import ReluMilp.Proofs.Nesting
import ReluMilp.Proofs.Optima
import ReluMilp.Proofs.Passes
import ReluMilp.Proofs.Points
import ReluMilp.Proofs.Preconditions
import ReluMilp.Proofs.Problems
import ReluMilp.Proofs.Products
import ReluMilp.Proofs.Propagation
import ReluMilp.Proofs.Rectifying
import ReluMilp.Proofs.Refusing
import ReluMilp.Proofs.Regressing
import ReluMilp.Proofs.Relaxing
import ReluMilp.Proofs.Replacing
import ReluMilp.Proofs.Reproducing
import ReluMilp.Proofs.Requests
import ReluMilp.Proofs.Restoring
import ReluMilp.Proofs.Retightening
import ReluMilp.Proofs.Revisions
import ReluMilp.Proofs.Sessions
import ReluMilp.Proofs.Shrinking
import ReluMilp.Proofs.Solvers
import ReluMilp.Proofs.Soundness
import ReluMilp.Proofs.Splicing
import ReluMilp.Proofs.Stacks
import ReluMilp.Proofs.Strength
import ReluMilp.Proofs.Succeeding
import ReluMilp.Proofs.Switches
import ReluMilp.Proofs.Tables
import ReluMilp.Proofs.Titles
import ReluMilp.Proofs.Undoing
import ReluMilp.Scalar
import ReluMilp.Settings
import ReluMilp.Tensor.Basic
import ReluMilp.Tensor.Broadcast
import ReluMilp.Tensor.Filling
import ReluMilp.Tensor.Operand
import ReluMilp.Tensor.Reading
import ReluMilp.Text.Case
import ReluMilp.Text.LowerTable
import ReluMilp.Text.Numeral
import ReluMilp.Text.PrintableTable
import ReluMilp.Text.Quoted
import ReluMilp.Text.WordTable
import ReluMilp.Value
