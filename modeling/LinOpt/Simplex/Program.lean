import LinOpt.Dense
import LinOpt.Problem

/-!
# Programs in matrix form

The simplex method works on the bare system `A x = b`, `x ≥ 0` with a cost for each column. A
basis is the list of its columns, one for each row.
-/

namespace LinOpt.Simplex

/-- Rows and right sides of a system, and the costs of its columns. -/
structure Program (α : Type) where
  rows : List (List α)
  rhs : List α
  costs : List α
  deriving Repr

namespace Program

variable {α β : Type} [Scalar α] [Endpoint β α]

def ofProblem (problem : Problem α β) : Program α where
  rows := problem.constraints.map (·.coefficients)
  rhs := problem.rhs
  costs := problem.objective.coefficients

def numColumns (program : Program α) : Nat := program.costs.length

/-- The program whose optimum is zero when the system has a solution. Each row receives an
artificial column of cost one, and the columns of the program follow at no cost. -/
def auxiliary (program : Program α) : Program α :=
  let m := program.rows.length
  { rows := List.zipWith (· ++ ·) (Dense.identity m) program.rows
    rhs := program.rhs
    costs := List.replicate m 1 ++ program.costs.map fun _ => 0 }

/-- The program with the given rows only. -/
def restrict (program : Program α) (rows : List Nat) : Program α where
  rows := rows.map (program.rows.getD · [])
  rhs := rows.map (program.rhs.getD · 0)
  costs := program.costs

/-- The product of `y` with column `j`. -/
def columnDot (program : Program α) (y : List α) (j : Nat) : α :=
  Scalar.dot (Dense.column program.rows j) y

/-- The columns of a basis, side by side. -/
def basisMatrix (program : Program α) (basis : List Nat) : List (List α) :=
  program.rows.map fun row => basis.map (Dense.entry row)

end Program

end LinOpt.Simplex
