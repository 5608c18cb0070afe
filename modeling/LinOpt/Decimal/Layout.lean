import LinOpt.Decimal.Shortest

/-!
# Texts of floating-point numbers

A layout says how the shortest digits of a number are written: with the point in its place, or
with one digit before the point and a power of ten. Infinities and NaN have one spelling
everywhere.
-/

namespace LinOpt

/-- How the digits of a number are arranged. -/
structure Layout where
  tie : Tie
  /-- A whole number is written with `.0` at its end. -/
  wholeFraction : Bool
  /-- Whether a first digit that counts `10 ^ n` is written without a power of ten. -/
  isPositional : (n : Int) → Bool
  /-- An exponent that is not negative has a `+`. -/
  exponentPlus : Bool

namespace Layout

/-- Never a power of ten, and whole numbers without a point. -/
def plain : Layout := ⟨.up, false, fun _ => true, false⟩

/-- Always a power of ten. -/
def scientific : Layout := ⟨.up, false, fun _ => false, false⟩

/-- Always a point or a power of ten, so that a number never looks like an integer. A power of ten
is written from `1e16` on, and below `0.0001`. -/
def structural : Layout := ⟨.up, true, fun n => -4 ≤ n && n < 16, false⟩

/-- Numbers in JSON documents: a power of ten from `1e+16` on, and below `0.00001`. -/
def json : Layout := ⟨.toEven, true, fun n => -5 ≤ n && n < 16, true⟩

/-- The digits of a numeral without the zeros at the end. -/
def significantDigits (digits : Nat) : List Char :=
  let trimmed := ((Nat.toDigits 10 digits).reverse.dropWhile (· == '0')).reverse
  if trimmed.isEmpty then ['0'] else trimmed

/-- Writes digits whose first one counts `10 ^ leading`, with the point in its place. -/
def positional (wholeFraction : Bool) (digits : List Char) (leading : Int) : List Char :=
  if leading < 0 then '0' :: '.' :: List.replicate (-leading - 1).toNat '0' ++ digits
  else
    let places := leading.toNat + 1
    let whole := digits.take places ++ List.replicate (places - digits.length) '0'
    let fraction := digits.drop places
    if !fraction.isEmpty then whole ++ '.' :: fraction
    else if wholeFraction then whole ++ ['.', '0']
    else whole

/-- Writes digits whose first one counts `10 ^ leading`, with one digit before the point. -/
def withExponent (exponentPlus : Bool) (digits : List Char) (leading : Int) : List Char :=
  let fraction := if digits.length ≤ 1 then [] else '.' :: digits.drop 1
  let plus := if exponentPlus && decide (0 ≤ leading) then ['+'] else []
  digits.take 1 ++ fraction ++ 'e' :: plus ++ (toString leading).toList

def magnitudeText (layout : Layout) (magnitude : Binary) : List Char :=
  let numeral := if magnitude.mantissa = 0 then ⟨0, 0⟩ else magnitude.shortest layout.tie
  let leading := (Nat.toDigits 10 numeral.digits).length - 1 + numeral.exponent
  let digits := significantDigits numeral.digits
  if layout.isPositional leading then positional layout.wholeFraction digits leading
  else withExponent layout.exponentPlus digits leading

def signText (negative : Bool) : String := if negative then "-" else ""

/-- The text of a floating-point number. -/
def text (layout : Layout) (x : Float) : String :=
  match FloatValue.ofFloat x with
  | .nan => "NaN"
  | .infinite negative => signText negative ++ "inf"
  | .finite negative magnitude =>
    signText negative ++ String.ofList (layout.magnitudeText magnitude)

end Layout

/-- The nearest whole number to `numerator / denominator`; a half goes to the even neighbour. -/
def roundHalfEven (numerator denominator : Nat) : Nat :=
  let below := numerator / denominator
  let twice := 2 * (numerator % denominator)
  if denominator < twice || (twice = denominator && below % 2 = 1) then below + 1 else below

/-- Writes a floating-point number with `places` digits after the point, rounding its exact value.
A negative number keeps its sign when it rounds to zero. -/
def fixedText (places : Nat) (x : Float) : String :=
  match FloatValue.ofFloat x with
  | .nan => "NaN"
  | .infinite negative => Layout.signText negative ++ "inf"
  | .finite negative magnitude =>
    let exact := Binary.fraction (magnitude.mantissa * Nat.pow 10 places) magnitude.exponent
    let rounded := roundHalfEven exact.1 exact.2
    let fraction := Nat.toDigits 10 (rounded % Nat.pow 10 places)
    let zeros := List.replicate (places - fraction.length) '0'
    Layout.signText negative ++ toString (rounded / Nat.pow 10 places) ++ "."
      ++ String.ofList (zeros ++ fraction)

end LinOpt
