import LinOpt.Decimal.Layout
import LinOpt.Problem
import LinOpt.Scalar.Float

/-!
# Problems as text

A problem is written section by section in the format that the reader of LP files accepts: the
objective, the rows, and the bounds of the variables that are not simply non-negative.
-/

namespace LinOpt

def Sense.text : Sense → String
  | .le => "<="
  | .eq => "="
  | .ge => ">="

def Goal.text : Goal → String
  | .minimize => "minimize"
  | .maximize => "maximize"

/-- A term after `before`, with its sign between blanks unless it starts the expression. -/
def appendTerm (before : String) (coefficient : Float) (name : String) : String :=
  if coefficient == 0 then before
  else
    let negative := decide (coefficient < 0)
    let sign :=
      if before.isEmpty then (if negative then "- " else "")
      else (if negative then " - " else " + ")
    let magnitude := coefficient.abs
    let factor := if magnitude == 1 then "" else Layout.plain.text magnitude ++ " "
    before ++ sign ++ factor ++ name

/-- A linear expression. Variables with coefficient zero are left out, and so is the coefficient
one. -/
def expressionText (coefficients : List Float) (names : List String) : String :=
  let text := (coefficients.zip names).foldl
    (fun before (coefficient, name) => appendTerm before coefficient name) ""
  if text.isEmpty then "0" else text

def Constraint.text (constraint : Constraint Float) (names : List String) : String :=
  constraint.name ++ ": " ++ expressionText constraint.coefficients names ++ " "
    ++ constraint.sense.text ++ " " ++ Layout.plain.text constraint.rhs

def Bounds.text (bounds : Bounds Float) (name : String) : String :=
  if bounds.isFree then name ++ " free"
  else Layout.plain.text bounds.lower ++ " <= " ++ name ++ " <= " ++ Layout.plain.text bounds.upper

namespace Problem

/-- The lines of a problem, without line ends. -/
def textLines (problem : Problem Float Float) : List String :=
  let names := problem.names
  let bounded := (names.zip problem.bounds).filter fun (_, bounds) => !bounds.isNonNegative
  [problem.objective.goal.text, "  " ++ expressionText problem.objective.coefficients names,
    "subject to"]
    ++ problem.constraints.map (fun c => "  " ++ c.text names)
    ++ (if bounded.isEmpty then [] else ["bounds"])
    ++ bounded.map (fun (name, bounds) => "  " ++ bounds.text name)
    ++ ["end"]

/-- The lines of a problem, with a line end between two lines and none after the last. -/
def text (problem : Problem Float Float) : String :=
  "\n".intercalate problem.textLines

end Problem

end LinOpt
