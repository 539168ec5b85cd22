import ClassAudit.Floating.Format

/-!
# Decimal text of floating point numbers

The digits written are the fewest that read back as the same number, and of those the
nearest to it. The search is exact: all reals that round to `m * 2 ^ q` form an
interval around it, whose ends belong to it when `m` is even, and for 1, 2, 3, … digits
the two neighbours of the number on that decimal grid are tested against the interval.

How digits are laid out (where positional notation ends, how an exponent is marked,
what stands for the numbers without digits) is a matter of the text being written and
is kept in a `DecimalStyle`.
-/

namespace ClassAudit.Floating

/-- A decimal number `d₁.d₂d₃… * 10 ^ exponent`. -/
structure Decimal where
  digits : List Char
  exponent : Int
  deriving DecidableEq, Repr

/-- Where a number goes that lies half way between two shortest decimals. -/
inductive TieRule
  | up
  | even
  deriving DecidableEq, Repr

/-- A number between two neighbours on a decimal grid, in units of `1 / scale` of the
number's own binary grid: `value` is the number, `step` the distance of grid points,
`below` and `above` the reach of the interval that rounds to the number. -/
structure GridView where
  value : Nat
  step : Nat
  below : Nat
  above : Nat
  closed : Bool

namespace GridView

/-- The number `m * 2 ^ q` seen on the grid of multiples of `10 ^ k`. At a power of two
the numbers below are twice as dense. -/
def of (m : Nat) (q k : Int) (powerOfTwo : Bool) : GridView :=
  let unit := Nat.pow 2 q.toNat * Nat.pow 10 (-k).toNat
  { value := 4 * m * unit
    step := 4 * Nat.pow 2 (-q).toNat * Nat.pow 10 k.toNat
    below := (if powerOfTwo then 1 else 2) * unit
    above := 2 * unit
    closed := m % 2 == 0 }

/-- Whether a point of the grid reads back as the number. -/
def holds (view : GridView) (point : Nat) : Bool :=
  let scaled := point * view.step
  if view.closed then
    decide (view.value ≤ scaled + view.below)
      && decide (scaled ≤ view.value + view.above)
  else
    decide (view.value < scaled + view.below)
      && decide (scaled < view.value + view.above)

/-- The grid point to write, if one of the two neighbours of the number reads back. -/
def choose (view : GridView) (tie : TieRule) : Option Nat :=
  let low := view.value / view.step
  let high := low + 1
  match view.holds low, view.holds high with
  | false, false => none
  | true, false => some low
  | false, true => some high
  | true, true =>
    let fromLow := view.value - low * view.step
    let fromHigh := high * view.step - view.value
    if fromLow < fromHigh then some low
    else if fromHigh < fromLow then some high
    else match tie with
      | .up => some high
      | .even => if low % 2 = 0 then some low else some high

end GridView

/-- How often a positive fraction `num / den` below one can be multiplied by ten before
it reaches one, counted up to `fuel`. -/
def leadingZeros (num den : Nat) : Nat → Nat
  | 0 => 0
  | fuel + 1 => if den ≤ num then 0 else leadingZeros (num * 10) den fuel + 1

/-- The exponent `e` with `10 ^ e ≤ m * 2 ^ q < 10 ^ (e + 1)`, for positive `m`. -/
def decimalExponent (m : Nat) (q : Int) : Int :=
  let num := m * Nat.pow 2 q.toNat
  let den := Nat.pow 2 (-q).toNat
  if den ≤ num then (Nat.toDigits 10 (num / den)).length - 1
  else -(leadingZeros num den (-q).toNat : Int)

/-- The decimal `point * 10 ^ k` with the zeros at its end dropped. -/
def Decimal.ofGrid (point : Nat) (k : Int) : Decimal :=
  let digits := Nat.toDigits 10 point
  { digits := (digits.reverse.dropWhile (· == '0')).reverse
    exponent := k + digits.length - 1 }

/-- The first grid, from `length` digits on, on which a neighbour reads back. -/
def shortestFrom (m : Nat) (q e : Int) (powerOfTwo : Bool) (tie : TieRule)
    (length : Nat) : Nat → Decimal
  | 0 => .ofGrid (m * Nat.pow 2 q.toNat / Nat.pow 2 (-q).toNat) 0
  | fuel + 1 =>
    let k := e - length + 1
    match (GridView.of m q k powerOfTwo).choose tie with
    | some point => .ofGrid point k
    | none => shortestFrom m q e powerOfTwo tie (length + 1) fuel

/-- The shortest decimal that reads back as `m * 2 ^ q`. Twenty digits are more than
any number of either format needs. -/
def Format.shortest (format : Format) (m : Nat) (q : Int) (tie : TieRule) : Decimal :=
  let powerOfTwo :=
    m == Nat.pow 2 format.fractionBits && decide (format.leastExponent < q)
  if m = 0 then ⟨['0'], 0⟩
  else shortestFrom m q (decimalExponent m q) powerOfTwo tie 1 20

/-- How numbers are laid out as text. -/
structure DecimalStyle where
  /-- The least and the largest exponent written positionally; without bounds, all
  are. -/
  positional : Option (Int × Int)
  /-- Whether an integral number in positional notation ends in `.0`. -/
  pointZero : Bool
  /-- Whether a positive exponent gets a sign. -/
  plusSign : Bool
  tie : TieRule
  nan : String
  infinity : String
  minusInfinity : String

namespace DecimalStyle

/-- Digits around a decimal point. -/
def writePositional (style : DecimalStyle) (decimal : Decimal) : String :=
  let digits := decimal.digits
  if decimal.exponent < 0 then
    "0." ++ "".pushn '0' (-decimal.exponent - 1).toNat ++ String.ofList digits
  else
    let whole := decimal.exponent.toNat + 1
    let fraction := digits.drop whole
    let head := String.ofList (digits.take whole) |>.pushn '0' (whole - digits.length)
    if fraction.isEmpty then (if style.pointZero then head ++ ".0" else head)
    else head ++ "." ++ String.ofList fraction

/-- Digits with the point behind the first, and an exponent. -/
def writeScientific (style : DecimalStyle) (decimal : Decimal) : String :=
  let head := String.ofList (decimal.digits.take 1)
  let fraction := decimal.digits.drop 1
  let significand :=
    if fraction.isEmpty then head else head ++ "." ++ String.ofList fraction
  let sign := if style.plusSign ∧ 0 ≤ decimal.exponent then "+" else ""
  significand ++ "e" ++ sign ++ toString decimal.exponent

/-- The text of a number of the given format. -/
def write (style : DecimalStyle) (format : Format) : Datum → String
  | .nan => style.nan
  | .infinite negative => if negative then style.minusInfinity else style.infinity
  | .finite negative m q =>
    let decimal := format.shortest m q style.tie
    let inRange := match style.positional with
      | none => true
      | some (least, largest) =>
        decide (least ≤ decimal.exponent) && decide (decimal.exponent ≤ largest)
    (if negative then "-" else "")
      ++ (if inRange then style.writePositional decimal
        else style.writeScientific decimal)

/-- The text of a 32-bit number. -/
def write32 (style : DecimalStyle) (x : Float32) : String :=
  style.write single (single.decode x.toBits.toNat)

/-- The text of a 64-bit number. -/
def write64 (style : DecimalStyle) (x : Float) : String :=
  style.write double (double.decode x.toBits.toNat)

end DecimalStyle

end ClassAudit.Floating
