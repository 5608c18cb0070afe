import LinOpt.Editor
import LinOpt.Main
import LinOpt.Proofs.Solver.Soundness
import LinOpt.Scalar.Rational
import LinOpt.Proofs.Solver.Ray
import LinOpt.Proofs.Simplex.Bland
import LinOpt.Proofs.Simplex.Independence
import LinOpt.Proofs.Solver.Termination
import LinOpt.Proofs.Dense.Pivots
import LinOpt.Proofs.Solver.Evaluations
import LinOpt.Proofs.Solver.Nonsingular
import LinOpt.Proofs.Solver.Structure
import LinOpt.Proofs.Solver.Limit
import LinOpt.Proofs.Scalar.Negation
import LinOpt.Proofs.Solver.Mirror
import LinOpt.Proofs.Simplex.Tolerance
import LinOpt.Proofs.Solver.Tolerance
import LinOpt.Proofs.Solver.Acceptance
import LinOpt.Proofs.Lp.Meaning
import LinOpt.Proofs.Lp.RoundTrip
import LinOpt.Proofs.Editor.Diagnostics
import LinOpt.Proofs.Simplex.Monotone
import LinOpt.Proofs.Solver.Drift
import LinOpt.Proofs.Solver.ReducedCosts
import LinOpt.Proofs.Scalar.Unit
import LinOpt.Proofs.Solver.Redundancy
import LinOpt.Proofs.StandardForm.Idempotence
import LinOpt.Proofs.Solver.Bounds
import LinOpt.Proofs.Lp.Expressions
import LinOpt.Proofs.StandardForm.Matrix
import LinOpt.Proofs.StandardForm.Names
import LinOpt.Proofs.Lp.Longest
import LinOpt.Proofs.Lp.Spacing
import LinOpt.Proofs.Lp.Comments
import LinOpt.Proofs.Lp.Readable
import LinOpt.Proofs.Lp.BoundStatements
import LinOpt.Proofs.Lp.CompileErrors
import LinOpt.Proofs.Lp.TokenOrder
import LinOpt.Proofs.Lp.Spans
import LinOpt.Proofs.Lp.ObjectiveSpan
import LinOpt.Proofs.Lp.BrokenLines
import LinOpt.Proofs.Lp.CutStatements
import LinOpt.Proofs.Lp.LineBreaks
import LinOpt.Proofs.Simplex.ExactSelection
