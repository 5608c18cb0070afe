import LinOpt.Lp.File.Json
import LinOpt.Text.Outline

/-!
# Outlines of LP files

Names in LP files are printable ASCII, so quoting them is all that their texts need.
-/

namespace LinOpt.Lp

def Span.outline (span : Span) : Outline :=
  .record "Span" [("start", .natural span.start), ("end", .natural span.stop)]

def Term.outline (term : Term Float) : Outline :=
  .record "Term" [("coefficient", .number term.coefficient), ("variable", .quoted term.name),
    ("span", term.span.outline)]

def ObjectiveStatement.outline (objective : ObjectiveStatement Float) : Outline :=
  .record "ObjectiveDef" [("name", .ofOption .quoted objective.name?),
    ("direction", .atom (goalName objective.goal)),
    ("terms", .list (objective.terms.map (·.outline))), ("line", .natural objective.line),
    ("span", objective.span.outline)]

def ConstraintStatement.outline (constraint : ConstraintStatement Float) : Outline :=
  .record "ConstraintDef" [("name", .ofOption .quoted constraint.name?),
    ("terms", .list (constraint.terms.map (·.outline))),
    ("relation", .atom (relationName constraint.sense)), ("rhs", .number constraint.rhs),
    ("line", .natural constraint.line), ("span", constraint.span.outline)]

def BoundKind.outline : BoundKind Float → Outline
  | .lower value => .variant "Lower" (.number value)
  | .upper value => .variant "Upper" (.number value)
  | .range low high => .record "Range" [("lower", .number low), ("upper", .number high)]
  | .fixed value => .variant "Fixed" (.number value)
  | .free => .atom "Free"

def BoundStatement.outline (bound : BoundStatement Float) : Outline :=
  .record "BoundDef" [("variable", .quoted bound.name), ("kind", bound.kind.outline),
    ("line", .natural bound.line), ("span", bound.span.outline)]

def File.outline (file : File Float Float) : Outline :=
  .record "LpFile" [("objective", file.objective.outline),
    ("constraints", .list (file.constraints.map (·.outline))),
    ("bounds", .list (file.bounds.map (·.outline)))]

end LinOpt.Lp
