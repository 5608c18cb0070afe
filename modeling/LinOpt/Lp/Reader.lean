import LinOpt.Event
import LinOpt.Logged
import LinOpt.Lp.Bound
import LinOpt.Lp.Lexer

/-!
# Reading LP files

A file is read line by line. Its objective may take any number of lines, and so may a constraint,
which ends on the first line with a number after its relation. Keywords count only where they
stand alone on a line, except for the goal, after which the objective may begin.
-/

namespace LinOpt.Lp

variable {α β : Type} [Scalar α] [Endpoint β α]

/-- The lines of a token list that have tokens besides comments. `current` has the tokens of the
line that is being read. -/
def splitLines (current : List Token) : List Token → Except ParseError (List Line)
  | [] => .ok []
  | token :: rest =>
    match token.kind with
    | .newline | .eof => do
      let lines ← splitLines [] rest
      return (Line.ofTokens? current).toList ++ lines
    | .comment => splitLines current rest
    | .error => .error (.invalidCharacter token.text token.line)
    | _ => splitLines (current ++ [token]) rest

/-- What comes before the first colon: the name of a statement and the colon itself. -/
structure Label where
  name : String
  colon : Token

/-- Splits the label off a statement, if it has a colon. -/
def splitLabel (tokens : List Token) : Except ParseError (Option Label × List Token) :=
  let before := tokens.takeWhile (·.kind != .colon)
  match tokens.dropWhile (·.kind != .colon), before with
  | [], _ => .ok (none, tokens)
  | colon :: rest, [name] =>
    if name.kind = .ident then .ok (some ⟨name.text, colon⟩, rest)
    else .error (.invalidName name.text colon.line)
  | colon :: _, _ => .error (.invalidName (String.join (before.map (·.text))) colon.line)

/-- An objective whose end has not been reached. -/
structure OpenObjective where
  goal : Goal
  name? : Option String
  keyword : Token
  tokens : List Token

namespace OpenObjective

/-- Adds a line. Only the first one can have a label, and only before anything else. -/
def addLine (objective : OpenObjective) (tokens : List Token) :
    Except ParseError OpenObjective := do
  let (label?, rest) ← splitLabel tokens
  match label? with
  | none => return { objective with tokens := objective.tokens ++ rest }
  | some label =>
    if objective.name?.isSome || !objective.tokens.isEmpty then
      .error (.unexpected label.colon .objectiveTerm)
    else return { objective with name? := some label.name, tokens := rest }

def close (objective : OpenObjective) : Except ParseError (ObjectiveStatement α) := do
  let terms ← readTerms objective.tokens
  return {
    name? := objective.name?
    goal := objective.goal
    terms := terms
    line := objective.keyword.line
    span := objective.keyword.span.merge (Token.spanOf objective.tokens) }

end OpenObjective

/-- A constraint whose right side has not been reached. -/
structure OpenConstraint where
  name? : Option String
  line : Nat
  tokens : List Token

namespace OpenConstraint

/-- The tokens before the first relation, the relation, and the tokens after it. -/
def split? (constraint : OpenConstraint) : Option (List Token × Token × List Token) :=
  match constraint.tokens.dropWhile (!·.isRelation) with
  | [] => none
  | relation :: rest => some (constraint.tokens.takeWhile (!·.isRelation), relation, rest)

/-- A number follows the relation. -/
def isComplete (constraint : OpenConstraint) : Bool :=
  constraint.split?.any fun (_, _, rest) => rest.any (·.kind == .number)

def close (constraint : OpenConstraint) : Except ParseError (ConstraintStatement α) :=
  match constraint.split? with
  | none => .error (.incompleteConstraint constraint.line)
  | some (left, relation, right) => do
    let terms ← readTerms left
    let rhs ← readRhs relation.line false right
    return {
      name? := constraint.name?
      terms := terms
      sense := relation.kind.sense?.getD .eq
      rhs := rhs
      line := constraint.line
      span := Token.spanOf constraint.tokens }

end OpenConstraint

/-- How much of a file has been read: the section that is open, and all statements so far. -/
inductive Progress (α β : Type) where
  | start
  | objective (objective : OpenObjective)
  | constraints (objective : ObjectiveStatement α) (constraints : List (ConstraintStatement α))
      (open? : Option OpenConstraint)
  | bounds (objective : ObjectiveStatement α) (constraints : List (ConstraintStatement α))
      (bounds : List (BoundStatement β))
  | finished (file : File α β)

namespace Progress

/-- The state at the start of a section. -/
def enter (part : Section) (objective : ObjectiveStatement α)
    (constraints : List (ConstraintStatement α)) : Progress α β :=
  match part with
  | .constraints => .constraints objective constraints none
  | .bounds => .bounds objective constraints []
  | .finish => .finished ⟨objective, constraints, []⟩

/-- Reads the first line of a file. -/
def addFirstLine (line : Line) : Logged (Event α) ParseError (Progress α β) :=
  match Keyword.ofLine? line.tokens with
  | some (.goal goal, rest) => do
    Logged.emit (.objectiveStarted line.first.line)
    let objective : OpenObjective := ⟨goal, none, line.first, []⟩
    if rest.isEmpty then return .objective objective
    else return .objective (← Logged.ofExcept (objective.addLine rest))
  | _ => Logged.fail (.unexpected line.first .goal)

/-- Closes the objective, and then opens the next section. -/
def closeObjective (objective : OpenObjective) (part : Section) (line : Line) :
    Logged (Event α) ParseError (Progress α β) := do
  Logged.emit (.sectionStarted part line.first.line)
  return enter part (← Logged.ofExcept objective.close) []

def addObjectiveLine (objective : OpenObjective) (line : Line) :
    Logged (Event α) ParseError (Progress α β) :=
  match Keyword.ofWholeLine? line.tokens with
  | some .subjectTo => closeObjective objective .constraints line
  | some .bounds => closeObjective objective .bounds line
  | some .finish => closeObjective objective .finish line
  | some (.goal _) => Logged.fail (.unexpected line.first .objectiveTerm)
  | none => do return .objective (← Logged.ofExcept (objective.addLine line.tokens))

/-- Opens the section after the constraints, unless one of them is incomplete. -/
def closeConstraints (objective : ObjectiveStatement α)
    (constraints : List (ConstraintStatement α)) (open? : Option OpenConstraint) (part : Section)
    (line : Line) : Logged (Event α) ParseError (Progress α β) := do
  Logged.emit (.sectionStarted part line.first.line)
  match open? with
  | some constraint => Logged.fail (.incompleteConstraint constraint.line)
  | none => return enter part objective constraints

/-- Adds a line to the open constraint, or begins one. A label begins one in any case. -/
def extendConstraint (open? : Option OpenConstraint) (line : Line) :
    Except ParseError OpenConstraint := do
  let (label?, rest) ← splitLabel line.tokens
  match label?, open? with
  | some _, some constraint => .error (.incompleteConstraint constraint.line)
  | none, some constraint => return { constraint with tokens := constraint.tokens ++ rest }
  | label?, none => return ⟨label?.map (·.name), line.first.line, rest⟩

def addConstraintLine (objective : ObjectiveStatement α)
    (constraints : List (ConstraintStatement α)) (open? : Option OpenConstraint) (line : Line) :
    Logged (Event α) ParseError (Progress α β) :=
  match Keyword.ofWholeLine? line.tokens with
  | some .bounds => closeConstraints objective constraints open? .bounds line
  | some .finish => closeConstraints objective constraints open? .finish line
  | some _ => Logged.fail (.unexpected line.first .constraint)
  | none => do
    let constraint ← Logged.ofExcept (extendConstraint open? line)
    if constraint.isComplete then
      let statement ← Logged.ofExcept constraint.close
      return .constraints objective (constraints ++ [statement]) none
    else return .constraints objective constraints (some constraint)

def addBoundLine (objective : ObjectiveStatement α) (constraints : List (ConstraintStatement α))
    (bounds : List (BoundStatement β)) (line : Line) :
    Logged (Event α) ParseError (Progress α β) :=
  match Keyword.ofWholeLine? line.tokens with
  | some .finish => do
    Logged.emit (.sectionStarted .finish line.first.line)
    return .finished ⟨objective, constraints, bounds⟩
  | some _ => Logged.fail (.unexpected line.first .bound)
  | none => do
    return .bounds objective constraints (bounds ++ [← Logged.ofExcept (readBound line)])

def addLine (progress : Progress α β) (line : Line) :
    Logged (Event α) ParseError (Progress α β) :=
  match progress with
  | .start => addFirstLine line
  | .objective opened => addObjectiveLine opened line
  | .constraints stated rows open? => addConstraintLine stated rows open? line
  | .bounds stated rows limits => addBoundLine stated rows limits line
  | .finished _ => Logged.fail (.unexpected line.first .endOfFile)

/-- The file, if its end has been read. -/
def finish (lastLine : Nat) : Progress α β → Except ParseError (File α β)
  | .start => .error .missingObjective
  | .constraints _ _ (some constraint) => .error (.incompleteConstraint constraint.line)
  | .objective _ | .constraints _ _ none | .bounds _ _ _ => .error (.missingEnd lastLine)
  | .finished file => .ok file

end Progress

/-- Reads the text of an LP file. -/
def parse (source : String) : Logged (Event α) ParseError (File α β) := do
  let lines ← Logged.ofExcept (splitLines [] (Lexer.tokenize source))
  let progress ← lines.foldlM Progress.addLine .start
  Logged.ofExcept (progress.finish ((lines.getLast?.map (·.first.line)).getD 1))

end LinOpt.Lp
