import LinOpt.Lp.Token

/-!
# Errors in LP files

What is wrong with a file, and on which line.
-/

namespace LinOpt.Lp

/-- What could have stood in place of an unexpected token. -/
inductive Expected where
  | goal
  | objectiveTerm
  | constraint
  | bound
  | endOfFile
  | endOfLine
  | sign
  | variableName
  | term
  | number
  | numberOrVariable
  | relation
  | matchingRelation
  deriving Repr, DecidableEq

namespace Expected

def text : Expected → String
  | .goal => "'maximize' or 'minimize'"
  | .objectiveTerm => "objective term"
  | .constraint => "constraint"
  | .bound => "bound"
  | .endOfFile => "end of file"
  | .endOfLine => "end of line"
  | .sign => "'+' or '-'"
  | .variableName => "variable"
  | .term => "term"
  | .number => "number"
  | .numberOrVariable => "number or variable"
  | .relation => "'<=', '>=' or '='"
  | .matchingRelation => "matching relation"

end Expected

inductive ParseError where
  | unexpectedToken (expected : Expected) (found : String) (line : Nat)
  | unexpectedEol (expected : Expected) (line : Nat)
  | invalidNumber (text : String) (line : Nat)
  | invalidCharacter (text : String) (line : Nat)
  | invalidName (text : String) (line : Nat)
  | nameInBounds (line : Nat)
  | incompleteConstraint (line : Nat)
  | missingObjective
  | missingEnd (line : Nat)
  deriving Repr, DecidableEq

namespace ParseError

def unexpected (token : Token) (expected : Expected) : ParseError :=
  .unexpectedToken expected token.text token.line

/-- The line of an error. A file without an objective has no line to blame. -/
def line? : ParseError → Option Nat
  | .unexpectedToken _ _ line | .unexpectedEol _ line | .invalidNumber _ line
  | .invalidCharacter _ line | .invalidName _ line | .nameInBounds line
  | .incompleteConstraint line | .missingEnd line => some line
  | .missingObjective => none

def message : ParseError → String
  | .unexpectedToken expected found line =>
    s!"line {line}: expected {expected.text}, found '{found}'"
  | .unexpectedEol expected line => s!"line {line}: expected {expected.text} before end of line"
  | .invalidNumber text line => s!"line {line}: invalid number '{text}'"
  | .invalidCharacter text line => s!"line {line}: invalid character '{text}'"
  | .invalidName text line => s!"line {line}: invalid name '{text}'"
  | .nameInBounds line => s!"line {line}: names are not allowed in the bounds section"
  | .incompleteConstraint line => s!"line {line}: incomplete constraint"
  | .missingObjective => "missing objective: expected 'maximize' or 'minimize'"
  | .missingEnd line => s!"line {line}: missing 'end'"

end ParseError

end LinOpt.Lp
