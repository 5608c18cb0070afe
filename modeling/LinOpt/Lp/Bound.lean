import LinOpt.Lp.Expression

/-!
# Statements of bounds

A bound compares a variable with one number or with a number on either side, or says that it is
free. Infinity counts as a number here.
-/

namespace LinOpt.Lp

variable {α β : Type} [Scalar α] [Endpoint β α]

/-- A line with at least one token. -/
structure Line where
  first : Token
  rest : List Token
  deriving Repr

namespace Line

def tokens (line : Line) : List Token := line.first :: line.rest

def ofTokens? : List Token → Option Line
  | [] => none
  | first :: rest => some ⟨first, rest⟩

end Line

inductive Operand (β : Type) where
  | value (value : β)
  | name (token : Token)

/-- An operand with its own token, the last sign before it, and what follows. -/
structure OperandReading (β : Type) where
  operand : Operand β
  sign? : Option Token
  token : Token
  rest : List Token

/-- Reads an operand: a variable, or a number or infinity after any number of signs. -/
def readOperand (line : Nat) (negative : Bool) (sign? : Option Token) :
    List Token → Except ParseError (OperandReading β)
  | [] => .error (.unexpectedEol .numberOrVariable line)
  | token :: rest =>
    match token.kind with
    | .plus => readOperand line negative (some token) rest
    | .minus => readOperand line (!negative) (some token) rest
    | .number => do
      let value : α ← readNumber token
      return ⟨.value (Endpoint.ofScalar (Scalar.signed negative value)), sign?, token, rest⟩
    | .ident =>
      if token.isInfinity then .ok ⟨.value (Endpoint.infinity negative), sign?, token, rest⟩
      else if sign?.isNone then .ok ⟨.name token, sign?, token, rest⟩
      else .error (.unexpected token .number)
    | _ => .error (.unexpected token .numberOrVariable)

def TokenKind.sense? : TokenKind → Option Sense
  | .le => some .le
  | .ge => some .ge
  | .eq => some .eq
  | _ => none

/-- Reads a relation and returns its token with it. -/
def readRelation (line : Nat) : List Token → Except ParseError (Sense × Token × List Token)
  | [] => .error (.unexpectedEol .relation line)
  | token :: rest =>
    match token.kind.sense? with
    | some sense => .ok (sense, token, rest)
    | none => .error (.unexpected token .relation)

namespace BoundKind

/-- The bound that a variable on the left of `value` has. -/
def ofRight (sense : Sense) (value : β) : BoundKind β :=
  match sense with
  | .le => .upper value
  | .ge => .lower value
  | .eq => .fixed value

/-- The bound that a variable on the right of `value` has. -/
def ofLeft (sense : Sense) (value : β) : BoundKind β := ofRight sense.flipped value

/-- The bounds that a variable between two numbers has, if both relations point the same way. -/
def between? (first : β) (left right : Sense) (second : β) : Option (BoundKind β) :=
  match left, right with
  | .le, .le => some (.range first second)
  | .ge, .ge => some (.range second first)
  | _, _ => none

end BoundKind

/-- The variable and what its bound says. -/
def readBoundKind (line : Line) : Except ParseError (String × BoundKind β × List Token) := do
  let left ← readOperand line.first.line false none line.tokens
  let (sense, _, afterRelation) ← readRelation line.first.line left.rest
  let right ← readOperand line.first.line false none afterRelation
  match left.operand, right.operand with
  | .name token, .value value => return (token.text, .ofRight sense value, right.rest)
  | .value value, .name token =>
    if right.rest.isEmpty then return (token.text, .ofLeft sense value, [])
    else
      let (secondSense, relation, afterSecond) ← readRelation line.first.line right.rest
      let last ← readOperand line.first.line false none afterSecond
      match last.operand with
      | .name other => .error (.unexpected other .number)
      | .value second =>
        match BoundKind.between? value sense secondSense second with
        | some kind => return (token.text, kind, last.rest)
        | none => .error (.unexpected (last.sign?.getD relation) .matchingRelation)
  | .value _, .value _ => .error (.unexpected right.token .variableName)
  | .name _, .name token => .error (.unexpected token .number)

/-- The variable of a line that says nothing but that it is free. -/
def freeName? (line : Line) : Option String :=
  match line.rest with
  | [word] => if line.first.kind == .ident && word.isKeyword "free" then some line.first.text
    else none
  | _ => none

/-- Reads a line of the bounds section. -/
def readBound (line : Line) : Except ParseError (BoundStatement β) :=
  let span := Token.spanOf line.tokens
  match line.tokens.find? (·.kind == .colon), freeName? line with
  | some colon, _ => .error (.nameInBounds colon.line)
  | none, some name => .ok ⟨name, .free, line.first.line, span⟩
  | none, none => do
    let (name, kind, rest) ← readBoundKind line
    match rest with
    | [] => return ⟨name, kind, line.first.line, span⟩
    | extra :: _ => .error (.unexpected extra .endOfLine)

end LinOpt.Lp
