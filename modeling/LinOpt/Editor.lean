import LinOpt.Lp.File.Json
import LinOpt.Lp.Model
import LinOpt.Scalar.Float
import LinOpt.Solver

/-!
# Services for editors

What an editor asks about the text in a window: its tokens, its structure, what is wrong with it
and where, and the solution of the problem that it states.
-/

namespace LinOpt.Editor

/-- The tokens of a source without line ends. -/
def tokens (source : String) : List Lp.Token :=
  (Lp.Lexer.tokenize source).filter fun token => token.kind != .newline && token.kind != .eof

def tokensJson (source : String) : Json :=
  .list ((tokens source).map fun token =>
    .object [("kind", .text token.kind.name), ("text", .text token.text),
      ("line", .natural token.line), ("start", .natural token.span.start),
      ("end", .natural token.span.stop)])

def parseJson (source : String) : Logged (Event Float) String Json := do
  let file : Lp.File Float Float ← (Lp.parse source).mapError (·.message)
  return file.toJson

/-- What is wrong with a source, and the bytes to mark. -/
structure Diagnostic where
  span : Lp.Span
  line? : Option Nat
  message : String
  deriving Repr, DecidableEq

/-- The bytes of a line of a text, without its end; `start` counts the bytes before the text. -/
def lineSpanFrom? (start : Nat) : (line : Nat) → List Char → Option Lp.Span
  | 0, _ => none
  | line + 1, text =>
    let stop := start + Lp.Lexer.byteLength (text.takeWhile (· != '\n'))
    if line = 0 then some ⟨start, stop⟩
    else match text.dropWhile (· != '\n') with
      | [] => none
      | _ :: rest => lineSpanFrom? (stop + 1) line rest

/-- The bytes of a line, or of the whole source if it has no such line. -/
def lineSpan (source : String) (line? : Option Nat) : Lp.Span :=
  (line?.bind fun line => lineSpanFrom? 0 line source.toList).getD ⟨0, source.utf8ByteSize⟩

def diagnostic (source : String) (error : Lp.CompileError) : Diagnostic :=
  ⟨lineSpan source error.line?, error.line?, error.message⟩

/-- The diagnostics of a source that has been compiled with the given result. -/
def diagnostics (source : String) :
    Except Lp.CompileError (Lp.Model Float Float) → List Diagnostic
  | .ok _ => []
  | .error error => [diagnostic source error]

def Diagnostic.toJson (diagnostic : Diagnostic) : Json :=
  .object [("start", .natural diagnostic.span.start), ("end", .natural diagnostic.span.stop),
    ("line", .ofOption .natural diagnostic.line?), ("severity", .text "error"),
    ("message", .text diagnostic.message)]

def validate (source : String) : Logged (Event Float) Empty (List Diagnostic) :=
  let compiled := Lp.compileSource source
  ⟨compiled.events, .ok (diagnostics source compiled.result)⟩

def solutionJson (model : Lp.Model Float Float) (solution : Solution Float Float) : Json :=
  .object [("status", .text solution.status.text), ("objective_name", .text model.objectiveName),
    ("objective_value",
      if solution.isOptimal then .number solution.objectiveValue else .null),
    ("variables", .list (List.zipWith
      (fun name value => .object [("name", .text name), ("value", .number value)])
      model.problem.names solution.values)),
    ("iterations", .natural solution.iterations.total)]

/-- Compiles a source and solves its problem with the standard solver. -/
def solveJson (source : String) : Logged (Event Float) String Json := do
  let model : Lp.Model Float Float ← (Lp.compileSource source).mapError (·.message)
  let solution ← (Solver.standard.solve model.problem).mapError (·.message)
  return solutionJson model solution

end LinOpt.Editor
