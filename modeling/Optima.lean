import Optima.Proofs.Expr.Differentiation
import Optima.Proofs.Expr.Independent
import Optima.Proofs.Formula.Reprint
import Optima.Proofs.Lagrangian.Feasibility
import Optima.Proofs.Lagrangian.Optimality
import Optima.Proofs.Lagrangian.Outputs
import Optima.Scalar.Double
import Optima.Solution.Data
import Optima.Trials
import Optima.Proofs.Trials.Run
import Optima.Proofs.Trials.WarmStart
import Optima.Proofs.Problem.Lifetime
import Optima.Proofs.Trials.Selection
import Optima.Proofs.Trials.Invocations
import Optima.Proofs.Expr.Sums
import Optima.Proofs.Scalar.Double.Identities
import Optima.Proofs.Expr.Meaning
import Optima.Proofs.Formula.Meaning
import Optima.Proofs.Trials.Atomicity
import Optima.Proofs.Trials.ObjectiveSum
import Optima.Proofs.Trials.Rows
import Optima.Proofs.Expr.Unbound
import Optima.Proofs.Lagrangian.Compilation
import Optima.Proofs.Formula.Partition
import Optima.Proofs.Scalar.Double.Growth
import Optima.Proofs.Lagrangian.Course
import Optima.Proofs.Lagrangian.Signs
import Optima.Proofs.Lagrangian.Verdicts
import Optima.Proofs.Lagrangian.Reading
import Optima.Proofs.Lagrangian.Gradient
import Optima.Proofs.Descent.Decrease
import Optima.Proofs.Expr.Evaluation
import Optima.Proofs.Formula.NormalForm
import Optima.Proofs.Lagrangian.Dense
import Optima.Proofs.Formula.Places
import Optima.Proofs.Trials.Sampling
import Optima.Proofs.Trials.Feasibility
import Optima.Proofs.Options.History
import Optima.Proofs.Formula.Spacing
import Optima.Proofs.Expr.FreeSymbols
import Optima.Proofs.Options.Dotted
import Optima.Proofs.Stationarity.Measure
