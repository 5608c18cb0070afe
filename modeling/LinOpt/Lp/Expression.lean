import LinOpt.Decimal.Numeral
import LinOpt.Lp.File
import LinOpt.Lp.ParseError

/-!
# Linear expressions

An expression such as `3 x1 - x2 + 0.5e1 y` is a list of terms. The first term may go without a
sign, every other term has at least one, and several signs multiply: `- - x` is `x`.
-/

namespace LinOpt.Lp

variable {α : Type} [Scalar α]

def readNumber (token : Token) : Except ParseError α :=
  match Numeral.read? token.text.toList with
  | some numeral => .ok numeral.toScalar
  | none => .error (.invalidNumber token.text token.line)

/-- What may come next in an expression. -/
inductive TermState (α : Type) where
  /-- A number or a variable. The signs so far are negative or not, and `signed` says whether one
  has been read. -/
  | operand (negative signed : Bool)
  /-- The variable of a coefficient. -/
  | factor (negative : Bool) (coefficient : α) (span : Span)
  /-- The sign of the next term. -/
  | separator

/-- The rest of an expression; `line` is the line of the last token that has been read. -/
def readTermsFrom (line : Nat) : TermState α → List Token → Except ParseError (List (Term α))
  | .operand _ false, [] | .separator, [] => .ok []
  | .operand _ true, [] | .factor _ _ _, [] => .error (.unexpectedEol .variableName line)
  | .operand negative _, token :: rest =>
    match token.kind with
    | .plus => readTermsFrom token.line (.operand negative true) rest
    | .minus => readTermsFrom token.line (.operand (!negative) true) rest
    | .number => do
      let coefficient ← readNumber token
      readTermsFrom token.line (.factor negative coefficient token.span) rest
    | .ident => do
      let terms ← readTermsFrom token.line .separator rest
      return ⟨Scalar.signed negative 1, token.text, token.span⟩ :: terms
    | _ => .error (.unexpected token .term)
  | .factor negative coefficient span, token :: rest =>
    match token.kind with
    | .ident => do
      let terms ← readTermsFrom token.line .separator rest
      return ⟨Scalar.signed negative coefficient, token.text, span.merge token.span⟩ :: terms
    | .number => .error (.unexpected token .sign)
    | _ => .error (.unexpected token .variableName)
  | .separator, token :: rest =>
    match token.kind with
    | .plus => readTermsFrom token.line (.operand false true) rest
    | .minus => readTermsFrom token.line (.operand true true) rest
    | .number | .ident => .error (.unexpected token .sign)
    | _ => .error (.unexpected token .term)

/-- Reads an expression; no tokens are the empty one. -/
def readTerms (tokens : List Token) : Except ParseError (List (Term α)) :=
  readTermsFrom 0 (.operand false false) tokens

/-- Reads a right side: signs and a number, and nothing after it. -/
def readRhs (line : Nat) (negative : Bool) : List Token → Except ParseError α
  | [] => .error (.unexpectedEol .number line)
  | token :: rest =>
    match token.kind with
    | .plus => readRhs line negative rest
    | .minus => readRhs line (!negative) rest
    | .number => do
      let value ← readNumber token
      match rest with
      | [] => return Scalar.signed negative value
      | extra :: _ => .error (.unexpected extra .endOfLine)
    | _ => .error (.unexpected token .number)

end LinOpt.Lp
