import LinOpt.Scalar

/-!
# Numerals

A numeral is a decimal number in writing: digits with at most one point among them, and an
optional power of ten. `read?` takes a whole text for a numeral or refuses it.
-/

namespace LinOpt

/-- The number `digits * 10 ^ exponent`. -/
structure Numeral where
  digits : Nat
  exponent : Int
  deriving Repr, DecidableEq

namespace Numeral

def digitsValue (digits : List Char) : Nat :=
  digits.foldl (fun value digit => 10 * value + (digit.toNat - '0'.toNat)) 0

/-- The power of ten at the end of a numeral: nothing, or `e` with a whole number after it. -/
def readExponent? : List Char → Option Int
  | [] => some 0
  | mark :: text =>
    let negative := text.head? == some '-'
    let digits := if negative || text.head? == some '+' then text.tail else text
    if (mark == 'e' || mark == 'E') && !digits.isEmpty && digits.all Char.isDigit then
      some (if negative then -(digitsValue digits : Int) else digitsValue digits)
    else none

/-- Reads a whole text. A digit has to stand on one side of the point, and it does not matter on
which. -/
def read? (text : List Char) : Option Numeral :=
  let whole := text.takeWhile Char.isDigit
  let afterWhole := text.dropWhile Char.isDigit
  let pointed := afterWhole.head? == some '.'
  let fraction := if pointed then afterWhole.tail.takeWhile Char.isDigit else []
  let rest := if pointed then afterWhole.tail.dropWhile Char.isDigit else afterWhole
  if whole.isEmpty && fraction.isEmpty then none
  else (readExponent? rest).map fun exponent =>
    ⟨digitsValue (whole ++ fraction), exponent - fraction.length⟩

/-- The scalar that a numeral stands for. -/
def toScalar {α : Type} [Scalar α] (numeral : Numeral) : α :=
  Scalar.ofDecimal numeral.digits numeral.exponent

end Numeral

end LinOpt
