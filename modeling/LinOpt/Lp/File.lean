import LinOpt.Lp.Token
import LinOpt.Problem

/-!
# LP files

An LP file states an objective, rows and bounds over variables that it names. Each statement
remembers where it stands.
-/

namespace LinOpt.Lp

/-- A variable times a coefficient, into which the signs before it have gone. -/
structure Term (α : Type) where
  coefficient : α
  name : String
  span : Span
  deriving Repr

structure ObjectiveStatement (α : Type) where
  name? : Option String
  goal : Goal
  terms : List (Term α)
  line : Nat
  span : Span
  deriving Repr

structure ConstraintStatement (α : Type) where
  name? : Option String
  terms : List (Term α)
  sense : Sense
  rhs : α
  /-- The line on which the statement starts, with its name if it has one. -/
  line : Nat
  span : Span
  deriving Repr

/-- What a bound says about its variable. -/
inductive BoundKind (β : Type) where
  | lower (value : β)
  | upper (value : β)
  | range (lower upper : β)
  | fixed (value : β)
  | free
  deriving Repr

structure BoundStatement (β : Type) where
  name : String
  kind : BoundKind β
  line : Nat
  span : Span
  deriving Repr

structure File (α β : Type) where
  objective : ObjectiveStatement α
  constraints : List (ConstraintStatement α)
  bounds : List (BoundStatement β)
  deriving Repr

/-- The bounds of a variable after a statement. A one-sided bound keeps the other side. -/
def BoundKind.apply {α β : Type} [Endpoint β α] (kind : BoundKind β) (bounds : Bounds β) :
    Bounds β :=
  match kind with
  | .lower value => ⟨value, bounds.upper⟩
  | .upper value => ⟨bounds.lower, value⟩
  | .range low high => ⟨low, high⟩
  | .fixed value => .fixed value
  | .free => .free

end LinOpt.Lp
