import LinOpt.Lp.File
import LinOpt.Text.Json

/-!
# LP files as JSON documents
-/

namespace LinOpt.Lp

def Span.toJson (span : Span) : Json :=
  .object [("start", .natural span.start), ("end", .natural span.stop)]

def goalName : Goal → String
  | .maximize => "Maximize"
  | .minimize => "Minimize"

def relationName : Sense → String
  | .le => "Le"
  | .eq => "Eq"
  | .ge => "Ge"

def Term.toJson (term : Term Float) : Json :=
  .object [("coefficient", .number term.coefficient), ("variable", .text term.name),
    ("span", term.span.toJson)]

def ObjectiveStatement.toJson (objective : ObjectiveStatement Float) : Json :=
  .object [("name", .ofOption .text objective.name?),
    ("direction", .text (goalName objective.goal)),
    ("terms", .list (objective.terms.map (·.toJson))), ("line", .natural objective.line),
    ("span", objective.span.toJson)]

def ConstraintStatement.toJson (constraint : ConstraintStatement Float) : Json :=
  .object [("name", .ofOption .text constraint.name?),
    ("terms", .list (constraint.terms.map (·.toJson))),
    ("relation", .text (relationName constraint.sense)), ("rhs", .number constraint.rhs),
    ("line", .natural constraint.line), ("span", constraint.span.toJson)]

def BoundKind.toJson : BoundKind Float → Json
  | .lower value => .object [("Lower", .number value)]
  | .upper value => .object [("Upper", .number value)]
  | .range low high =>
    .object [("Range", .object [("lower", .number low), ("upper", .number high)])]
  | .fixed value => .object [("Fixed", .number value)]
  | .free => .text "Free"

def BoundStatement.toJson (bound : BoundStatement Float) : Json :=
  .object [("variable", .text bound.name), ("kind", bound.kind.toJson),
    ("line", .natural bound.line), ("span", bound.span.toJson)]

def File.toJson (file : File Float Float) : Json :=
  .object [("objective", file.objective.toJson),
    ("constraints", .list (file.constraints.map (·.toJson))),
    ("bounds", .list (file.bounds.map (·.toJson)))]

end LinOpt.Lp
