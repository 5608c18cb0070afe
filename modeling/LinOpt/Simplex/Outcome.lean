/-!
# What the simplex method finds out

Optimality and unboundedness come with the data that show them: the basic solution, and the
direction along which the objective falls forever.
-/

namespace LinOpt

/-- The search for a feasible basis, and the optimization that starts from it. -/
inductive Phase where
  | one
  | two
  deriving Repr, DecidableEq

def Phase.text : Phase → String
  | .one => "1"
  | .two => "2"

/-- Which of the columns with a negative reduced cost enters the basis. -/
inductive PricingRule where
  /-- The most negative reduced cost; of several, the lowest column. -/
  | dantzig
  /-- The lowest column. With this rule no basis comes back. -/
  | bland
  deriving Repr, DecidableEq

/-- The number of pivots in each phase. -/
structure Iterations where
  phaseOne : Nat
  phaseTwo : Nat
  deriving Repr, DecidableEq

namespace Iterations

def none : Iterations := ⟨0, 0⟩

def total (iterations : Iterations) : Nat := iterations.phaseOne + iterations.phaseTwo

end Iterations

/-- An optimal basic solution of a problem in standard form. -/
structure BasicSolution (α : Type) where
  /-- The basic column of each row that was kept. -/
  basis : List Nat
  /-- The values of all columns, zero outside the basis. -/
  values : List α
  objectiveValue : α
  /-- The rows that depend on the others and were left out of phase two. -/
  droppedRows : List Nat
  iterations : Iterations
  deriving Repr

/-- Each unit of `entering` changes the basic column of row `i` by `-direction[i]`, and none of
them ever reaches zero. -/
structure UnboundedRay (α : Type) where
  phase : Phase
  entering : Nat
  basis : List Nat
  direction : List α
  deriving Repr

inductive Outcome (α : Type) where
  | optimal (solution : BasicSolution α)
  | infeasible
  | unbounded (ray : UnboundedRay α)
  deriving Repr

end LinOpt
