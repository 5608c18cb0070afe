import LinOpt.Lp.Contents
import LinOpt.Lp.Reader

/-!
# From LP files to problems

The variables of a file are numbered in the order in which its terms name them, the objective
first. A row adds up the coefficients of repeated variables, and of several bounds for one variable
each replaces what it says.
-/

namespace LinOpt.Lp

inductive CompileError where
  | duplicateConstraint (name : String) (line : Nat)
  | unknownVariable (name : String) (line : Nat)
  | unreadable (path : String) (failure : ReadFailure)
  | parse (error : ParseError)
  deriving Repr, DecidableEq

namespace CompileError

def line? : CompileError → Option Nat
  | .duplicateConstraint _ line | .unknownVariable _ line => some line
  | .unreadable _ _ => none
  | .parse error => error.line?

def message : CompileError → String
  | .duplicateConstraint name line => s!"line {line}: duplicate constraint name '{name}'"
  | .unknownVariable name line => s!"line {line}: unknown variable '{name}' in bounds"
  | .unreadable path failure => s!"IO error: {path}: {failure.message}"
  | .parse error => s!"Parse error: {error.message}"

end CompileError

/-- A problem with a name for its objective. -/
structure Model (α β : Type) where
  objectiveName : String
  problem : Problem α β
  deriving Repr

variable {α β : Type} [Scalar α] [Endpoint β α]

/-- Different names, numbered by their places. -/
structure Numbering where
  names : List String
  distinct : names.Nodup

namespace Numbering

def empty : Numbering := ⟨[], List.nodup_nil⟩

/-- Gives a name the next number, unless it has one. -/
def add (numbering : Numbering) (name : String) : Numbering :=
  if old : name ∈ numbering.names then numbering
  else
    { names := numbering.names ++ [name]
      distinct := by
        rw [List.nodup_append]
        refine ⟨numbering.distinct, by simp, fun earlier member last only same => old ?_⟩
        rwa [← List.mem_singleton.mp only, ← same] }

def number? (numbering : Numbering) (name : String) : Option Nat :=
  numbering.names.idxOf? name

/-- Adds a coefficient to the entry of its variable. -/
def addTerm (numbering : Numbering) (row : List α) (term : Term α) : List α :=
  match numbering.number? term.name with
  | some j => row.modify j (· + term.coefficient)
  | none => row

/-- One coefficient for each variable; those of a repeated variable are added up. -/
def row (numbering : Numbering) (terms : List (Term α)) : List α :=
  terms.foldl numbering.addTerm (numbering.names.map fun _ => 0)

/-- Adds a row for each constraint. One without a name is called after its place; `taken` has the
names of the rows before it. -/
def addConstraints (numbering : Numbering) (place : Nat) (taken : List String)
    (problem : Problem α β) :
    List (ConstraintStatement α) → Except CompileError (Problem α β)
  | [] => .ok problem
  | statement :: rest =>
    let name := statement.name?.getD s!"c{place}"
    if taken.contains name then .error (.duplicateConstraint name statement.line)
    else
      let constraint : Constraint α :=
        { name := name
          coefficients := numbering.row statement.terms
          sense := statement.sense
          rhs := statement.rhs }
      numbering.addConstraints (place + 1) (name :: taken) (problem.addConstraint constraint) rest

/-- Changes the bounds of the variables that the statements name. -/
def addBounds (numbering : Numbering) (problem : Problem α β) :
    List (BoundStatement β) → Except CompileError (Problem α β)
  | [] => .ok problem
  | statement :: rest =>
    match numbering.number? statement.name with
    | some j =>
      let current := problem.bounds.getD j .nonNegative
      numbering.addBounds (problem.setBounds j (statement.kind.apply current)) rest
    | none => .error (.unknownVariable statement.name statement.line)

end Numbering

namespace File

/-- The terms of a file, those of the objective first. -/
def terms (file : File α β) : List (Term α) :=
  file.objective.terms ++ file.constraints.flatMap (·.terms)

/-- The variables of a file, numbered in the order in which its terms name them. -/
def numbering (file : File α β) : Numbering :=
  file.terms.foldl (fun numbering term => numbering.add term.name) .empty

/-- The problem that a file states. -/
def problem (file : File α β) : Except CompileError (Problem α β) := do
  let numbering := file.numbering
  let start := (Problem.ofVariables numbering.names).setObjective
    (numbering.row file.objective.terms) file.objective.goal
  let constrained ← numbering.addConstraints 0 [] start file.constraints
  numbering.addBounds constrained file.bounds

end File

def compile (file : File α β) : Logged (Event α) CompileError (Model α β) := do
  let problem ← Logged.ofExcept file.problem
  Logged.emit (.compiled problem.numVariables problem.numConstraints file.bounds.length)
  return ⟨file.objective.name?.getD "obj", problem⟩

/-- Reads and compiles the text of an LP file. -/
def compileSource (source : String) : Logged (Event α) CompileError (Model α β) := do
  let file ← (parse source).mapError .parse
  compile file

/-- Compiles what has been read from a path. -/
def compileFile (path : String) (contents : Except ReadFailure ByteArray) :
    Logged (Event α) CompileError (Model α β) :=
  match decode contents with
  | .ok source => compileSource source
  | .error failure => Logged.fail (.unreadable path failure)

end LinOpt.Lp
