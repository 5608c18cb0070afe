import LinOpt.Lp.Token
import LinOpt.Problem

/-!
# Sections of an LP file

A file consists of an objective, rows, bounds and an end, each opened by a keyword at the start of
a line.
-/

namespace LinOpt.Lp

/-- The sections after the objective. -/
inductive Section where
  | constraints
  | bounds
  | finish
  deriving Repr, DecidableEq

namespace Section

def name : Section → String
  | .constraints => "Constraints"
  | .bounds => "Bounds"
  | .finish => "End"

end Section

/-- A keyword that opens a section; the one of the objective says what the goal is. -/
inductive Keyword where
  | goal (goal : Goal)
  | subjectTo
  | bounds
  | finish
  deriving Repr, DecidableEq

namespace Keyword

/-- The keywords that are a single word. -/
def ofWord? (word : String) : Option Keyword :=
  if ["max", "maximize", "maximise", "maximum"].contains word then some (.goal .maximize)
  else if ["min", "minimize", "minimise", "minimum"].contains word then some (.goal .minimize)
  else if ["s.t.", "st.", "st"].contains word then some .subjectTo
  else if ["bounds", "bound"].contains word then some .bounds
  else if word == "end" then some .finish
  else none

/-- The keyword at the start of a line, and the tokens after it. -/
def ofLine? : List Token → Option (Keyword × List Token)
  | [] => none
  | first :: rest =>
    if first.kind ≠ .ident then none
    else match ofWord? first.folded, rest with
      | some keyword, _ => some (keyword, rest)
      | none, second :: rest =>
        if (first.folded == "subject" && second.isKeyword "to")
            || (first.folded == "such" && second.isKeyword "that") then
          some (.subjectTo, rest)
        else none
      | none, [] => none

/-- The keyword that a line consists of. -/
def ofWholeLine? (line : List Token) : Option Keyword :=
  match ofLine? line with
  | some (keyword, []) => some keyword
  | _ => none

end Keyword

end LinOpt.Lp
