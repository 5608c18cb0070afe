import LinOpt.Bounds

/-!
# Linear programs

A linear program optimizes a linear objective over variables that have bounds and satisfy rows of
a linear system. Everything parallel to the variables is a list of its own, and only `validate`
says whether the lists have one entry for each variable: a program can be built piece by piece.
-/

namespace LinOpt

inductive Goal where
  | minimize
  | maximize
  deriving Repr, DecidableEq

/-- How the left side of a row compares with the right side. -/
inductive Sense where
  | le
  | eq
  | ge
  deriving Repr, DecidableEq

namespace Sense

/-- The sense of a row after both sides have been multiplied by `-1`. -/
def flipped : Sense → Sense
  | .le => .ge
  | .eq => .eq
  | .ge => .le

end Sense

structure Objective (α : Type) where
  coefficients : List α
  goal : Goal
  deriving Repr, BEq

/-- A row of the system: the sum of `coefficients` times variables, compared with `rhs`. -/
structure Constraint (α : Type) where
  name : String
  coefficients : List α
  sense : Sense
  rhs : α
  deriving Repr, BEq

/-- A linear program with numbers `α` and bounds `β`. -/
structure Problem (α β : Type) where
  /-- The names of the variables. -/
  names : List String
  objective : Objective α
  constraints : List (Constraint α)
  bounds : List (Bounds β)
  deriving Repr, BEq

/-- A list of a problem that does not have one entry for each variable. -/
inductive ProblemError where
  | objectiveLength (expected found : Nat)
  | rowLength (name : String) (expected found : Nat)
  | boundsLength (expected found : Nat)
  deriving Repr, DecidableEq

namespace ProblemError

def message : ProblemError → String
  | .objectiveLength expected found =>
    s!"Objective has {found} coefficients but the problem has {expected} variables"
  | .rowLength name expected found =>
    s!"Constraint {name} has {found} coefficients but the problem has {expected} variables"
  | .boundsLength expected found => s!"Problem has {found} bounds but {expected} variables"

end ProblemError

namespace Problem

variable {α β : Type} [Scalar α] [Endpoint β α]

/-- Minimizes zero over non-negative variables, with no rows. -/
def ofVariables (names : List String) : Problem α β where
  names := names
  objective := ⟨names.map fun _ => 0, .minimize⟩
  constraints := []
  bounds := names.map fun _ => .nonNegative

def setObjective (problem : Problem α β) (coefficients : List α) (goal : Goal) : Problem α β :=
  { problem with objective := ⟨coefficients, goal⟩ }

def addConstraint (problem : Problem α β) (constraint : Constraint α) : Problem α β :=
  { problem with constraints := problem.constraints ++ [constraint] }

def setBounds (problem : Problem α β) (j : Nat) (bounds : Bounds β) : Problem α β :=
  { problem with bounds := problem.bounds.set j bounds }

/-- Appends a variable that occurs in no row. -/
def addVariable (problem : Problem α β) (name : String) (cost : α) (bounds : Bounds β) :
    Problem α β where
  names := problem.names ++ [name]
  objective := { problem.objective with
    coefficients := problem.objective.coefficients ++ [cost] }
  constraints := problem.constraints.map fun c => { c with coefficients := c.coefficients ++ [0] }
  bounds := problem.bounds ++ [bounds]

def numVariables (problem : Problem α β) : Nat := problem.names.length

def numConstraints (problem : Problem α β) : Nat := problem.constraints.length

/-- The coefficients of variable `j` in all rows. -/
def column (problem : Problem α β) (j : Nat) : List α :=
  problem.constraints.map (·.coefficients.getD j 0)

def rhs (problem : Problem α β) : List α := problem.constraints.map (·.rhs)

/-- Reports the first list that does not have one entry for each variable: the objective, then the
bounds, then the rows from top to bottom. -/
def validate (problem : Problem α β) : Except ProblemError Unit :=
  let expected := problem.numVariables
  let costs := problem.objective.coefficients.length
  let bounds := problem.bounds.length
  if costs ≠ expected then .error (.objectiveLength expected costs)
  else if bounds ≠ expected then .error (.boundsLength expected bounds)
  else match problem.constraints.find? (·.coefficients.length != expected) with
    | some c => .error (.rowLength c.name expected c.coefficients.length)
    | none => .ok ()

/-- A minimization over non-negative variables whose rows are equations with right sides that are
not negative. -/
def isStandardForm (problem : Problem α β) : Bool :=
  problem.objective.goal == .minimize
    && problem.constraints.all (fun c => c.sense == .eq && decide (0 ≤ c.rhs))
    && problem.bounds.all Bounds.isNonNegative

/-- The sum of cost times value over the columns of a basis. -/
def objectiveValue (problem : Problem α β) (basis : List Nat) (values : List α) : α :=
  Scalar.sum (basis.map fun j => problem.objective.coefficients.getD j 0 * values.getD j 0)

end Problem

end LinOpt
