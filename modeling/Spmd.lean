import Spmd.Number.Decimal
import Spmd.Text.Distance
import Spmd.Fault
import Spmd.Json.Parser
import Spmd.Json.Printer
import Spmd.Target
import Spmd.Constant.Folding
import Spmd.Ty.Conversion
import Spmd.Diagnostic.Message
import Spmd.Once
import Spmd.Loggers
import Spmd.Expr.Storage
import Spmd.Expr.Cost
import Spmd.Session
import Spmd.Typing.Operator
import Spmd.Typing.Call
import Spmd.Typing.Access
import Spmd.Typing.Check
import Spmd.Optimization
import Spmd.Code.Emission
import Spmd.Program.Malformed
import Spmd.Program.Types
import Spmd.Program.Basic
import Spmd.Batch
import Spmd.Forest
import Spmd.CommandLine.Number
import Spmd.CommandLine.Argument
import Spmd.CommandLine.Options
import Spmd.CommandLine
import Spmd.Main
import Spmd.Proofs.Ty.Equality
import Spmd.Proofs.Ty.Legal
import Spmd.Proofs.Ty.Conversion
import Spmd.Proofs.Constant.Folding
import Spmd.Proofs.Expr.Coherent
import Spmd.Proofs.Expr.Formed
import Spmd.Proofs.Overload
import Spmd.Proofs.Typing.Conversion
import Spmd.Proofs.Typing.Operator
import Spmd.Proofs.Typing.Assignment
import Spmd.Proofs.Typing.Access
import Spmd.Proofs.Typing.Call
import Spmd.Proofs.Typing.Value
import Spmd.Proofs.Typing.Visiting
import Spmd.Proofs.Typing.Check
import Spmd.Proofs.Program.Types
import Spmd.Proofs.Typing.Program
import Spmd.Proofs.Optimization.Step
import Spmd.Proofs.Optimization.Refined
import Spmd.Proofs.Optimization.Rewriting
import Spmd.Proofs.Optimization.Typing
import Spmd.Proofs.Optimization.Program
import Spmd.Proofs.Machine.Scalar
import Spmd.Proofs.Machine.Evaluation
import Spmd.Proofs.Optimization.Values
import Spmd.Proofs.Session.Result
import Spmd.Proofs.Typing.Converting
import Spmd.Proofs.Expr.WellTyped
import Spmd.Proofs.WellTyped.Conversion
import Spmd.Proofs.WellTyped.Operator
import Spmd.Proofs.WellTyped.Check
import Spmd.Proofs.WellTyped.Variability
import Spmd.Proofs.WellTyped.Address
import Spmd.Proofs.Code.Effects
import Spmd.Proofs.Code.Performed
import Spmd.Proofs.Code.Contract
import Spmd.Proofs.Code.Referents
import Spmd.Proofs.Code.ReadsThrough
import Spmd.Proofs.Code.Operands
import Spmd.Proofs.Optimization.Steady
import Spmd.Proofs.Optimization.Effects
import Spmd.Proofs.Session.Quiet
import Spmd.Proofs.Optimization.Stable
import Spmd.Proofs.Code.Generation
import Spmd.Proofs.Code.Wired
import Spmd.Proofs.Code.Tally
import Spmd.Proofs.Ty.Outline
import Spmd.Proofs.Ty.Obstacle
import Spmd.Proofs.Ty.Common
import Spmd.Proofs.Expr.Outline
import Spmd.Proofs.Retyping.Again
import Spmd.Proofs.Retyping.Conversion
import Spmd.Proofs.Retyping.Filling
import Spmd.Proofs.Retyping.Operand
import Spmd.Proofs.Retyping.Operator
import Spmd.Proofs.Retyping.Assignment
import Spmd.Proofs.Retyping.Access
import Spmd.Proofs.Retyping.Value
import Spmd.Proofs.Retyping.Call
import Spmd.Proofs.Retyping.Check
import Spmd.Proofs.Retyping.Program
import Spmd.Proofs.Session.Secluded
import Spmd.Proofs.Session.Pairs
import Spmd.Proofs.Sharing.Names
import Spmd.Proofs.Sharing.Conversion
import Spmd.Proofs.Sharing.Form
import Spmd.Proofs.Sharing.Check
import Spmd.Proofs.Typing.Prepared
import Spmd.Proofs.Typing.Children
import Spmd.Proofs.Sharing.Walk
import Spmd.Proofs.Typing.Acceptance
import Spmd.Proofs.Typing.Indirection
import Spmd.Proofs.Typing.Resolution
import Spmd.Proofs.Batch.Compile
import Spmd.Proofs.Batch.Independence
import Spmd.Proofs.Batch.Gating
import Spmd.Proofs.CommandLine
import Spmd.Proofs.Program.Faults
import Spmd.Proofs.Ty.Relaxed
import Spmd.Proofs.Ty.Filling
import Spmd.Proofs.Retyping.Nodes
import Spmd.Proofs.Folded.Redrawn
import Spmd.Proofs.Folded.Resemblance
import Spmd.Proofs.Folded.Conversion
import Spmd.Proofs.Folded.Operator
import Spmd.Proofs.Folded.Assignment
import Spmd.Proofs.Folded.Access
import Spmd.Proofs.Folded.Value
import Spmd.Proofs.Folded.Call
import Spmd.Proofs.Folded.Check
import Spmd.Proofs.Folded.Program
import Spmd.Proofs.Typing.Pointer
import Spmd.Proofs.Typing.Offset
import Spmd.Proofs.Code.Place
import Spmd.Proofs.Code.Arrow
import Spmd.Proofs.Code.Decay
import Spmd.Proofs.Code.ReferenceCast
import Spmd.Proofs.Ty.UpperBound
import Spmd.Proofs.Session.Terse
import Spmd.Proofs.Typing.Reports
import Spmd.Proofs.Typing.Varying
import Spmd.Proofs.Typing.Lists
import Spmd.Proofs.Constant.Outcome
import Spmd.Proofs.Machine.Folding
import Spmd.Proofs.Constant.Casting
import Spmd.Proofs.Retyping.Building
import Spmd.Proofs.Typing.Applicable
import Spmd.Proofs.Optimization.Closed
import Spmd.Proofs.Typing.Update
import Spmd.Proofs.Typing.Compound
import Spmd.Proofs.Typing.Increment
import Spmd.Proofs.Typing.Inverse
import Spmd.Proofs.SideBySide
import Spmd.Proofs.Expr.Unmeasured
import Spmd.Proofs.Code.Measured
import Spmd.Proofs.Optimization.Measured
import Spmd.Proofs.Optimization.Cost
import Spmd.Proofs.Overload.Survivors
import Spmd.Proofs.Overload.Positions
import Spmd.Proofs.Overload.Memo
import Spmd.Proofs.Text.Nearest
import Spmd.Proofs.Text.Distance
import Spmd.Proofs.Number.Rounding
import Spmd.Proofs.Machine.Wrapping
import Spmd.Proofs.Constant.Canonical
import Spmd.Proofs.Constant.Extraction
import Spmd.Proofs.Typing.Narrowing
import Spmd.Proofs.Program.Symbols
import Spmd.Proofs.Program.Literals
import Spmd.Proofs.Ty.Cast
import Spmd.Proofs.Ty.Lawful
import Spmd.Proofs.Text.Lines
import Spmd.Proofs.Expr.Dump
