import LinOpt.Decimal.Layout
import LinOpt.Lp.Section
import LinOpt.Simplex.Outcome

/-!
# Events

What a reader or a solver reports while it works, from single pivots to rows that turn out to be
superfluous. An event has a level and a text.
-/

namespace LinOpt

inductive Level where
  | error
  | warn
  | debug
  | trace
  deriving Repr, DecidableEq

namespace Level

def name : Level → String
  | .error => "error"
  | .warn => "warn"
  | .debug => "debug"
  | .trace => "trace"

end Level

inductive Event (α : Type) where
  | objectiveStarted (line : Nat)
  | sectionStarted (part : Lp.Section) (line : Nat)
  | compiled (columns rows bounds : Nat)
  | normalized (rows columns standardRows standardColumns boundRows negatedRows : Nat)
  | solving (rows columns : Nat) (pricing : PricingRule)
  | pivoted (phase : Phase) (iteration entering leaving : Nat)
  | limitReached (phase : Phase) (limit : Nat)
  | singularBasis (basis : List Nat) (phase : Phase)
  | phaseOneInfeasible (infeasibility : α)
  | phaseOneFeasible (iterations : Nat)
  /-- The basis is singular while artificial columns are removed from it. -/
  | singularRemoval
  | artificialReplaced (artificial column : Nat)
  | rowDropped (row : Nat)
  | phaseTwoOptimal (iterations : Nat)
  | phaseTwoUnbounded (column : Nat)
  deriving Repr

def PricingRule.name : PricingRule → String
  | .dantzig => "Dantzig"
  | .bland => "Bland"

namespace Event

def level {α : Type} : Event α → Level
  | .singularBasis _ _ | .singularRemoval => .error
  | .limitReached _ _ | .rowDropped _ => .warn
  | .objectiveStarted _ | .sectionStarted _ _ | .pivoted _ _ _ _ | .artificialReplaced _ _ =>
    .trace
  | .compiled _ _ _ | .normalized _ _ _ _ _ _ | .solving _ _ _ | .phaseOneInfeasible _
  | .phaseOneFeasible _ | .phaseTwoOptimal _ | .phaseTwoUnbounded _ => .debug

def indexListText (indices : List Nat) : String :=
  "[" ++ ", ".intercalate (indices.map fun i => toString i) ++ "]"

def text : Event Float → String
  | .objectiveStarted line => s!"objective section at line {line}"
  | .sectionStarted part line => s!"{part.name} section at line {line}"
  | .compiled columns rows bounds =>
    s!"compiled {columns} variables, {rows} constraints, {bounds} bounds"
  | .normalized rows columns standardRows standardColumns boundRows negatedRows =>
    s!"normalized {rows}x{columns} problem to {standardRows}x{standardColumns} "
      ++ s!"({boundRows} bound rows, {negatedRows} rows negated)"
  | .solving rows columns pricing =>
    s!"solving {rows} rows x {columns} columns with {pricing.name} pricing"
  | .pivoted phase iteration entering leaving =>
    s!"phase {phase.text} iteration {iteration}: column {entering} enters, "
      ++ s!"column {leaving} leaves"
  | .limitReached phase limit => s!"phase {phase.text} hit the iteration limit of {limit}"
  | .singularBasis basis phase =>
    s!"basis {indexListText basis} is singular in phase {phase.text}"
  | .phaseOneInfeasible infeasibility =>
    "phase 1 ended with infeasibility " ++ Layout.scientific.text infeasibility
  | .phaseOneFeasible iterations => s!"phase 1 feasible after {iterations} iterations"
  | .singularRemoval => "singular basis while removing artificial columns"
  | .artificialReplaced artificial column =>
    s!"artificial {artificial} leaves for column {column}"
  | .rowDropped row => s!"constraint row {row} is redundant and is dropped"
  | .phaseTwoOptimal iterations => s!"phase 2 optimal after {iterations} iterations"
  | .phaseTwoUnbounded column => s!"phase 2 unbounded along column {column}"

end Event

end LinOpt
