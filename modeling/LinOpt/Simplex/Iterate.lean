import LinOpt.Simplex.Outcome
import LinOpt.Simplex.Program

/-!
# A single iteration

From a basis follow its values, the prices of the rows and the reduced costs of the other columns.
They decide whether the basis is optimal; if it is not, a column enters, and the ratio test finds
the row whose basic column leaves or shows that the objective falls forever.
-/

namespace LinOpt.Simplex

variable {α : Type} [Scalar α]

/-- The column that enters: one whose reduced cost is below `-tolerance`. -/
def findEntering (pricing : PricingRule) (tolerance : α) (reducedCosts : List (Nat × α)) :
    Option Nat :=
  let candidates := reducedCosts.filter fun (_, cost) => decide (cost < -tolerance)
  match pricing with
  | .bland => candidates.head?.map (·.1)
  | .dantzig =>
    (candidates.foldl
      (fun best candidate => match best with
        | some least => if least.2 ≤ candidate.2 then some least else some candidate
        | none => some candidate)
      none).map (·.1)

/-- A row that the ratio test has met, with its ratio. -/
structure Ratio (α : Type) where
  row : Nat
  ratio : α

/-- The better one of two rows in the ratio test. The first row is kept in a tie, except that
Bland's rule takes the row with the lower basic column. -/
def Ratio.better (pricing : PricingRule) (basis : List Nat) (best next : Ratio α) : Ratio α :=
  if next.ratio < best.ratio then next
  else if next.ratio == best.ratio && pricing == .bland
      && decide (basis.getD next.row 0 < basis.getD best.row 0) then next
  else best

/-- The row that limits a step along `direction`: of the rows with an entry above the tolerance,
one with the least ratio of value to entry. -/
def findLeaving (pricing : PricingRule) (tolerance : α) (values direction : List α)
    (basis : List Nat) : Option Nat :=
  ((direction.zip values).zipIdx.foldl
    (fun best ((entry, value), row) =>
      if entry ≤ tolerance then best
      else
        let next : Ratio α := ⟨row, Scalar.larger value 0 / entry⟩
        match best with
        | some least => some (least.better pricing basis next)
        | none => some next)
    none).map (·.row)

inductive Decision (α : Type) where
  | optimal
  | pivot (entering row : Nat)
  | unbounded (entering : Nat) (direction : List α)
  deriving Repr

/-- What a basis tells. -/
structure Iterate (α : Type) where
  /-- The values of the basic columns. -/
  values : List α
  /-- The columns outside the basis with their reduced costs. -/
  reducedCosts : List (Nat × α)
  decision : Decision α
  deriving Repr

/-- The columns outside the basis, each with its cost less what the prices pay for it. -/
def reducedCosts (program : Program α) (basis : List Nat) (prices : List α) : List (Nat × α) :=
  ((List.range program.numColumns).filter (!basis.contains ·)).map fun j =>
    (j, program.costs.getD j 0 - program.columnDot prices j)

/-- Evaluates a basis, unless its matrix has no inverse. -/
def iterate (pricing : PricingRule) (tolerance : α) (program : Program α) (basis : List Nat) :
    Option (Iterate α) :=
  match Dense.invert (program.basisMatrix basis) with
  | none => none
  | some inverse =>
    let values := Dense.mulVec inverse program.rhs
    let prices := Dense.vecMul (basis.map (program.costs.getD · 0)) inverse
    let reduced := reducedCosts program basis prices
    match findEntering pricing tolerance reduced with
    | none => some ⟨values, reduced, .optimal⟩
    | some entering =>
      let direction := Dense.mulVec inverse (Dense.column program.rows entering)
      let decision := match findLeaving pricing tolerance values direction basis with
        | some row => .pivot entering row
        | none => .unbounded entering direction
      some ⟨values, reduced, decision⟩

end LinOpt.Simplex
