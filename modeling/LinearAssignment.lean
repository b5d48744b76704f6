import LinearAssignment.Adjustment
import LinearAssignment.Codec.Report
import LinearAssignment.Codec.Settings
import LinearAssignment.Codec.Solution
import LinearAssignment.Codec.Trace
import LinearAssignment.Complement
import LinearAssignment.Config
import LinearAssignment.CostMatrix
import LinearAssignment.Decimal.Binary
import LinearAssignment.Decimal.Layout
import LinearAssignment.Decimal.Reader
import LinearAssignment.Decimal.Shortest
import LinearAssignment.Defect
import LinearAssignment.Descent
import LinearAssignment.Failure
import LinearAssignment.Grid
import LinearAssignment.Inspection
import LinearAssignment.Json.Basic
import LinearAssignment.Json.Decode
import LinearAssignment.Json.Number
import LinearAssignment.Json.Parser
import LinearAssignment.Json.Printer
import LinearAssignment.Json.Quoted
import LinearAssignment.Json.Table
import LinearAssignment.Json.Token
import LinearAssignment.LineCover
import LinearAssignment.Log
import LinearAssignment.Matching.Alternating
import LinearAssignment.Matching.Basic
import LinearAssignment.Matching.Greedy
import LinearAssignment.Padding
import LinearAssignment.Proofs.Admission
import LinearAssignment.Proofs.Advance
import LinearAssignment.Proofs.Agreement
import LinearAssignment.Proofs.Assignments
import LinearAssignment.Proofs.Augmentation
import LinearAssignment.Proofs.AugmentingSearch
import LinearAssignment.Proofs.ChangeOfUnits
import LinearAssignment.Proofs.ColumnStorage
import LinearAssignment.Proofs.ComplementRange
import LinearAssignment.Proofs.ComplementRun
import LinearAssignment.Proofs.CoverDuality
import LinearAssignment.Proofs.DualAccounting
import LinearAssignment.Proofs.EntryPoints
import LinearAssignment.Proofs.Equivariance
import LinearAssignment.Proofs.ExactScalar
import LinearAssignment.Proofs.Feasibility
import LinearAssignment.Proofs.FloatAgreement
import LinearAssignment.Proofs.FloatOrder
import LinearAssignment.Proofs.FloatRounding
import LinearAssignment.Proofs.FloatUnits
import LinearAssignment.Proofs.GreedyMatching
import LinearAssignment.Proofs.GreedyPass
import LinearAssignment.Proofs.InspectionReport
import LinearAssignment.Proofs.JsonText
import LinearAssignment.Proofs.LargestMatching
import LinearAssignment.Proofs.Loops
import LinearAssignment.Proofs.MatchingHistory
import LinearAssignment.Proofs.Observability
import LinearAssignment.Proofs.Optimality
import LinearAssignment.Proofs.Pairing
import LinearAssignment.Proofs.ParentPointers
import LinearAssignment.Proofs.PermutationCost
import LinearAssignment.Proofs.Persistence
import LinearAssignment.Proofs.Progress
import LinearAssignment.Proofs.Reachability
import LinearAssignment.Proofs.Recording
import LinearAssignment.Proofs.ReducedForm
import LinearAssignment.Proofs.ReducedGrid
import LinearAssignment.Proofs.RelabelledCover
import LinearAssignment.Proofs.Relabelling
import LinearAssignment.Proofs.Replay
import LinearAssignment.Proofs.Rounds
import LinearAssignment.Proofs.RowShift
import LinearAssignment.Proofs.Runs
import LinearAssignment.Proofs.ScalarOrder
import LinearAssignment.Proofs.Scaling
import LinearAssignment.Proofs.SmallestCover
import LinearAssignment.Proofs.SolutionCodec
import LinearAssignment.Proofs.TableChecks
import LinearAssignment.Proofs.Termination
import LinearAssignment.Proofs.TokenText
import LinearAssignment.Proofs.Validation
import LinearAssignment.Proofs.ValueRange
import LinearAssignment.RawTable
import LinearAssignment.Reduction
import LinearAssignment.Run
import LinearAssignment.Scalar.Basic
import LinearAssignment.Scalar.Instances
import LinearAssignment.Solution
import LinearAssignment.Solver
import LinearAssignment.Text.Ascii
import LinearAssignment.Text.Blank
import LinearAssignment.Trace
import LinearAssignment.ZeroPattern
