import LinOpt.Event
import LinOpt.Logged
import LinOpt.Problem

/-!
# Standard form

A problem in standard form minimizes over non-negative variables subject to equations. `normalize`
brings every problem with sensible bounds into this form: maximization becomes minimization of the
negated costs, bounds are eliminated variable by variable, rows with a negative right side are
negated, and inequalities receive a slack or surplus column. The result remembers where its columns
come from, so that its solutions can be read as values of the given variables.
-/

namespace LinOpt

/-- Where a column of a problem in standard form comes from. -/
inductive Column (α : Type) where
  /-- Each unit of the column contributes `scale` to a given variable. -/
  | structural (index : Nat) (scale : α)
  /-- What a `<=` row leaves over. -/
  | slack (row : Nat)
  /-- What a `>=` row has beyond its right side. -/
  | surplus (row : Nat)
  deriving Repr, DecidableEq

/-- A problem in standard form and its relation to the problem that it stands for. -/
structure StandardForm (α β : Type) where
  problem : Problem α β
  /-- The costs are those of a maximization, negated. -/
  negated : Bool
  columns : List (Column α)
  /-- The value of each given variable at the point where all columns are zero. -/
  offsets : List α
  givenCosts : List α
  deriving Repr

inductive NormalizeError (β : Type) where
  | malformedBounds (name : String) (bounds : Bounds β)
  | problem (error : ProblemError)
  deriving Repr

/-- How a variable is replaced by non-negative ones. -/
inductive Elimination (α : Type) where
  | keep
  /-- The difference of two columns. -/
  | split
  /-- `offset + scale * column`, where the column may have an upper bound. -/
  | substitute (offset scale : α) (upper : Option α)
  /-- The bounds become rows; a lower bound of zero needs none. -/
  | rows (lower : Option α) (upper : α)
  deriving Repr

variable {α β : Type} [Scalar α] [Endpoint β α]

/-- Chooses the elimination by which ends are finite, and by the sign of the lower one. -/
def Bounds.elimination? (bounds : Bounds β) : Option (Elimination α) :=
  if bounds.isMalformed then none
  else match Endpoint.finite? bounds.lower, Endpoint.finite? bounds.upper with
    | none, none => some .split
    | some lower, none => some (if lower == 0 then .keep else .substitute lower 1 none)
    | none, some upper => some (.substitute upper (-1) none)
    | some lower, some upper =>
      some (if lower == 0 then .rows none upper
        else if 0 < lower then .rows (some lower) upper
        else .substitute lower 1 (some (upper - lower)))

namespace Elimination

/-- The columns that replace a variable: what is added to its name, and the scale. -/
def columns : Elimination α → List (String × α)
  | .split => [("'", 1), ("''", -1)]
  | .substitute _ scale _ => [("", scale)]
  | .keep | .rows _ _ => [("", 1)]

def offset? : Elimination α → Option α
  | .substitute offset _ _ => some offset
  | _ => none

/-- The rows that bound the column of a variable: what is added to its name, and the comparison. -/
def boundRows : Elimination α → List (String × Sense × α)
  | .substitute _ _ (some upper) => [("_upper", .le, upper)]
  | .rows (some lower) upper => [("_lower", .ge, lower), ("_upper", .le, upper)]
  | .rows none upper => [("_upper", .le, upper)]
  | _ => []

end Elimination

namespace StandardForm

/-- A column that replaces variable `index`, alone or as half of a difference. -/
structure Structural (α : Type) where
  name : String
  index : Nat
  scale : α
  deriving Repr

def structuralColumns (names : List String) (eliminations : List (Elimination α)) :
    List (Structural α) :=
  ((names.zip eliminations).mapIdx fun index (name, elimination) =>
    elimination.columns.map fun (suffix, scale) => ⟨name ++ suffix, index, scale⟩).flatten

/-- A right side after every variable has been replaced: the offsets move to the right. -/
def shiftedRhs (constraint : Constraint α) (eliminations : List (Elimination α)) : α :=
  (constraint.coefficients.zip eliminations).foldl
    (fun rhs (coefficient, elimination) => match elimination.offset? with
      | some offset => if coefficient == 0 then rhs else rhs - coefficient * offset
      | none => rhs)
    constraint.rhs

/-- A row in terms of the structural columns. -/
def substituted (constraint : Constraint α) (eliminations : List (Elimination α))
    (columns : List (Structural α)) : Constraint α where
  name := constraint.name
  coefficients := columns.map fun c => constraint.coefficients.getD c.index 0 * c.scale
  sense := constraint.sense
  rhs := shiftedRhs constraint eliminations

/-- The rows that keep columns within bounds, variable by variable. A variable with such rows has
one column, so the row has a one there and zeros elsewhere. -/
def boundConstraints (names : List String) (eliminations : List (Elimination α))
    (columns : List (Structural α)) : List (Constraint α) :=
  ((names.zip eliminations).mapIdx fun index (name, elimination) =>
    elimination.boundRows.map fun (suffix, sense, rhs) =>
      { name := name ++ suffix
        coefficients := columns.map fun c => if c.index = index then 1 else 0
        sense := sense
        rhs := rhs }).flatten

/-- A negative right side is made positive by multiplying the row by `-1`. -/
def oriented (constraint : Constraint α) : Constraint α :=
  if constraint.rhs < 0 then
    { name := constraint.name
      coefficients := constraint.coefficients.map (- ·)
      sense := constraint.sense.flipped
      rhs := -constraint.rhs }
  else constraint

/-- A column that turns the inequality of one row into an equation. -/
structure Auxiliary (α : Type) where
  name : String
  row : Nat
  sign : α
  column : Column α
  deriving Repr

def auxiliaryColumn? (constraint : Constraint α) (row : Nat) : Option (Auxiliary α) :=
  match constraint.sense with
  | .eq => none
  | .le => some ⟨"s_" ++ constraint.name, row, 1, .slack row⟩
  | .ge => some ⟨"e_" ++ constraint.name, row, -1, .surplus row⟩

def auxiliaryColumns (constraints : List (Constraint α)) : List (Auxiliary α) :=
  constraints.zipIdx.filterMap fun (constraint, row) => auxiliaryColumn? constraint row

/-- A row as an equation: its own auxiliary column counts with its sign, the others not at all. -/
def equation (auxiliaries : List (Auxiliary α)) (row : Nat) (constraint : Constraint α) :
    Constraint α where
  name := constraint.name
  coefficients := constraint.coefficients
    ++ auxiliaries.map fun a => if a.row = row then a.sign else 0
  sense := .eq
  rhs := constraint.rhs

/-- The eliminations of all variables, or the first variable that has none. -/
def eliminations (problem : Problem α β) : Except (NormalizeError β) (List (Elimination α)) :=
  (problem.names.zip problem.bounds).mapM fun (name, bounds) =>
    match bounds.elimination? with
    | some elimination => .ok elimination
    | none => .error (.malformedBounds name bounds)

/-- The rows before they become equations: those of the problem, then those of the bounds. -/
def inequalities (problem : Problem α β) (eliminations : List (Elimination α)) :
    List (Constraint α) :=
  let columns := structuralColumns problem.names eliminations
  problem.constraints.map (substituted · eliminations columns)
    ++ boundConstraints problem.names eliminations columns

/-- The standard form of a problem whose variables are replaced by the given eliminations. -/
def ofEliminations (problem : Problem α β) (eliminations : List (Elimination α)) :
    StandardForm α β :=
  let negated := problem.objective.goal == .maximize
  let costs := if negated then problem.objective.coefficients.map (- ·)
    else problem.objective.coefficients
  let structurals := structuralColumns problem.names eliminations
  let constraints := (inequalities problem eliminations).map oriented
  let auxiliaries := auxiliaryColumns constraints
  let names := structurals.map (·.name) ++ auxiliaries.map (·.name)
  { problem :=
      { names := names
        objective :=
          ⟨structurals.map (fun c => costs.getD c.index 0 * c.scale)
            ++ auxiliaries.map (fun _ => 0), .minimize⟩
        constraints := constraints.mapIdx (equation auxiliaries)
        bounds := names.map fun _ => .nonNegative }
    negated := negated
    columns := structurals.map (fun c => .structural c.index c.scale)
      ++ auxiliaries.map (·.column)
    offsets := eliminations.map fun elimination => elimination.offset?.getD 0
    givenCosts := problem.objective.coefficients }

def numColumns (form : StandardForm α β) : Nat := form.columns.length

/-- The values of the given variables when the columns have the given values. -/
def recover (form : StandardForm α β) (values : List α) : List α :=
  form.offsets.mapIdx fun index offset =>
    (form.columns.zip values).foldl
      (fun x (column, value) => match column with
        | .structural i scale => if i = index then x + scale * value else x
        | _ => x)
      offset

/-- The objective of the given problem, in its own sense. -/
def givenObjective (form : StandardForm α β) (x : List α) : α :=
  Scalar.dot form.givenCosts x

end StandardForm

/-- Brings a problem into standard form. -/
def Problem.normalize (problem : Problem α β) :
    Logged (Event α) (NormalizeError β) (StandardForm α β) := do
  Logged.ofExcept (problem.validate.mapError .problem)
  let eliminations ← Logged.ofExcept (StandardForm.eliminations problem)
  let form := StandardForm.ofEliminations problem eliminations
  let rows := StandardForm.inequalities problem eliminations
  Logged.emit (.normalized problem.numConstraints problem.numVariables
    form.problem.numConstraints form.problem.numVariables
    (rows.length - problem.numConstraints) (rows.countP fun c => decide (c.rhs < 0)))
  return form

end LinOpt
