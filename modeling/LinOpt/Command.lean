import LinOpt.Lp.File.Outline
import LinOpt.Lp.Model
import LinOpt.Problem.Text
import LinOpt.Solver

/-!
# Commands

A command works on one LP file. It answers with what goes to the two output streams and with an
exit code, and touches nothing itself.
-/

namespace LinOpt

inductive OutputFormat where
  | pretty
  | json
  deriving Repr, DecidableEq

inductive Command where
  /-- Prints the solution. Variables at zero are left out unless `all` holds. -/
  | solve (solver : Solver Float) (format : OutputFormat) (all : Bool)
  /-- Prints what the file says. -/
  | parse (format : OutputFormat)
  /-- Looks for errors. -/
  | check
  /-- Prints the problem in standard form. -/
  | normalize
  deriving Repr

/-- What a command has to say. -/
structure Report where
  exitCode : UInt32
  output : String
  errors : String
  deriving Repr

namespace Report

def ofLines (exitCode : UInt32) (lines : List String) : Report :=
  ⟨exitCode, String.join (lines.map (· ++ "\n")), ""⟩

def failure (message : String) : Report := ⟨1, "", message ++ "\n"⟩

end Report

def Status.exitCode : Status → UInt32
  | .optimal => 0
  | .infeasible => 2
  | .unbounded => 3

def Status.name : Status → String
  | .optimal => "Optimal"
  | .infeasible => "Infeasible"
  | .unbounded => "Unbounded"

/-- Blanks before a text, up to a width in characters. -/
def padLeft (width : Nat) (text : String) : String :=
  "".pushn ' ' (width - text.length) ++ text

/-- Blanks after a text, up to a width in characters. -/
def padRight (width : Nat) (text : String) : String :=
  text.pushn ' ' (width - text.length)

namespace Command

/-- The lines of the variables. The column of names is as wide as the longest one has bytes. -/
def variableLines (names : List String) (values : List Float) (all : Bool) : List String :=
  let width := (names.map (·.utf8ByteSize)).foldl max 0
  ((names.zip values).filter fun (_, value) => all || decide (1e-9 < value.abs)).map
    fun (name, value) => "  " ++ padRight width name ++ " " ++ padLeft 14 (fixedText 6 value)

def solutionLines (model : Lp.Model Float Float) (solution : Solution Float Float) (all : Bool) :
    List String :=
  let status := "Status: " ++ solution.status.text
  if !solution.isOptimal then [status]
  else
    let ⟨phaseOne, phaseTwo⟩ := solution.iterations
    [status,
      "Objective (" ++ model.objectiveName ++ "): " ++ Layout.plain.text solution.objectiveValue,
      s!"Iterations: {solution.iterations.total} (phase 1: {phaseOne}, phase 2: {phaseTwo})",
      "", "Variables:"]
      ++ variableLines model.problem.names solution.values all

/-- The members of an object in the order of their keys; of several with one key, the last. -/
def sortedMembers (members : List (String × Json)) : List (String × Json) :=
  let distinct := members.foldr
    (fun member later => if later.any (·.1 == member.1) then later else member :: later) []
  distinct.mergeSort fun left right => decide (left.1 ≤ right.1)

def solutionJson (model : Lp.Model Float Float) (solution : Solution Float Float) : Json :=
  .object [("basic_variables", .list (solution.basicVariables.map .text)),
    ("iterations", .object [("phase_one", .natural solution.iterations.phaseOne),
      ("phase_two", .natural solution.iterations.phaseTwo)]),
    ("objective_name", .text model.objectiveName),
    ("objective_value",
      if solution.isOptimal then .number solution.objectiveValue else .null),
    ("status", .text solution.status.name),
    ("variables", .object (sortedMembers
      (List.zipWith (fun name value => (name, .number value))
        model.problem.names solution.values)))]

def runSolve (model : Lp.Model Float Float) (solver : Solver Float) (format : OutputFormat)
    (all : Bool) : Report :=
  match (solver.solve model.problem).result with
  | .error error => .failure ("Solver error: " ++ error.message)
  | .ok solution =>
    .ofLines solution.status.exitCode (match format with
      | .pretty => solutionLines model solution all
      | .json => [(solutionJson model solution).pretty 0])

def runParse (source : String) (format : OutputFormat) : Report :=
  match (Lp.parse source).result with
  | .error error => .failure ("Parse error: " ++ error.message)
  | .ok (file : Lp.File Float Float) =>
    .ofLines 0 [match format with
      | .pretty => file.outline.pretty 0
      | .json => file.toJson.pretty 0]

def runCheck (model : Lp.Model Float Float) : Report :=
  let problem := model.problem
  let bounded := problem.bounds.countP (!·.isNonNegative)
  .ofLines 0 [s!"OK: {problem.numVariables} variables, "
    ++ s!"{problem.numConstraints} constraints, {bounded} non-default bounds"]

/-- What the standard form does not show by itself: the goal, and where variables were shifted. -/
def remarks (model : Lp.Model Float Float) (form : StandardForm Float Float) : List String :=
  (if form.negated then ["\\ objective negated from maximize"] else [])
    ++ (model.problem.names.zip form.offsets).filterMap fun (name, offset) =>
      if offset == 0 then none
      else some ("\\ " ++ name ++ " shifted by " ++ Layout.plain.text offset)

def runNormalize (model : Lp.Model Float Float) : Report :=
  match model.problem.normalize.result with
  | .error error => .failure ("Normalize error: " ++ error.message)
  | .ok form => .ofLines 0 (form.problem.text :: remarks model form)

/-- Compiles a file for a command that works on its problem. -/
def withModel (path : String) (contents : Except Lp.ReadFailure ByteArray)
    (command : Lp.Model Float Float → Report) : Report :=
  match (Lp.compileFile path contents).result with
  | .error error => .failure ("Error: " ++ error.message)
  | .ok model => command model

/-- Runs a command on what has been read from a path. -/
def run (command : Command) (path : String) (contents : Except Lp.ReadFailure ByteArray) :
    Report :=
  match command with
  | .solve solver format all =>
    withModel path contents fun model => runSolve model solver format all
  | .parse format =>
    match Lp.decode contents with
    | .error failure => .failure ("Error reading file: " ++ failure.message)
    | .ok source => runParse source format
  | .check => withModel path contents runCheck
  | .normalize => withModel path contents runNormalize

end Command

end LinOpt
