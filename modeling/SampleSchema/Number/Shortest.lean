import SampleSchema.Number.Binary

/-!
# Shortest Decimals

The decimal text of a double: the fewest digits that name it and no other.

The reals that round to a double form an interval around it, reaching half
way to each neighbour, the ends included exactly when the mantissa is even.
A decimal inside that interval reads back as the same double. Decimals with
`n` digits form a grid, and if any grid point lies in the interval, one of
the two next to the value does; so the search tries those two for one digit,
two digits and so on, and takes the nearer when both fit. Seventeen digits
always suffice.

All comparisons are between natural numbers, cross-multiplied, so the digits
are exact. How the digits are laid out is a separate matter, decided by
`layout`: positional from 10⁻⁵ up to 10¹⁶, always with a point, and with a
signed exponent elsewhere.

## Main definitions

* `Interval`: The reals that round to a double, in a common unit.
* `Decimal`: Digits and a power of ten.
* `shortest`: The fewest digits that name a positive double.
* `layout`: Where the point goes, and when an exponent is written.
* `Binary.text`: The text of any double.
-/

namespace SampleSchema

namespace Shortest

/-- The reals that round to a double: those from `low` to `high` quarters of
    its last place, `mid` being the double itself. -/
structure Interval where
  low : Nat
  mid : Nat
  high : Nat
  /-- The power of two that is one quarter of the last place. -/
  unit : Int
  /-- Both ends belong to the interval. -/
  closed : Bool

/-- The interval of `m · 2 ^ e`. Below a power of two the doubles lie twice as
    close together, except at the bottom of the range. -/
def Interval.ofFinite (m : Nat) (e : Int) : Interval where
  low := if m = Nat.pow 2 52 ∧ e ≠ -1074 then 4 * m - 1 else 4 * m - 2
  mid := 4 * m
  high := 4 * m + 2
  unit := e - 2
  closed := m % 2 == 0

/-- A decimal `digits · 10 ^ exponent`. -/
structure Decimal where
  digits : Nat
  exponent : Int

/-- `n` units of an interval, scaled to the same whole numbers as `ofDecimal`. -/
def Interval.scale (i : Interval) (exponent : Int) (n : Nat) : Nat :=
  n * Nat.pow 2 i.unit.toNat * Nat.pow 10 (-exponent).toNat

/-- A decimal, scaled to the same whole numbers as `scale`. -/
def Interval.ofDecimal (i : Interval) (d : Decimal) : Nat :=
  d.digits * Nat.pow 10 d.exponent.toNat * Nat.pow 2 (-i.unit).toNat

/-- The decimal rounds to the double of the interval. -/
def Interval.contains (i : Interval) (d : Decimal) : Bool :=
  let x := i.ofDecimal d
  let low := i.scale d.exponent i.low
  let high := i.scale d.exponent i.high
  if i.closed then low ≤ x && x ≤ high else low < x && x < high

/-- The grid point at or below the double, among multiples of a power of ten. -/
def Interval.floor (i : Interval) (exponent : Int) : Decimal where
  digits := i.scale exponent i.mid / i.ofDecimal ⟨1, exponent⟩
  exponent := exponent

/-- The nearest of the two grid points around the double, if one of them names
    it. Of two equally near ones the even one is taken. -/
def Interval.pick? (i : Interval) (exponent : Int) : Option Decimal :=
  let below := i.floor exponent
  let above : Decimal := { below with digits := below.digits + 1 }
  match i.contains below, i.contains above with
  | true, true =>
      let twice := 2 * i.scale exponent i.mid
      let sum := i.ofDecimal below + i.ofDecimal above
      if twice < sum then some below
      else if sum < twice then some above
      else some (if below.digits % 2 = 0 then below else above)
  | true, false => some below
  | false, true => some above
  | false, false => none

/-- One more than the power of ten of the leading digit. Every positive double
    exceeds `10 ^ -340`, so scaling by that leaves a whole number to count. -/
def Interval.magnitude (i : Interval) : Int :=
  (Nat.toDigits 10 (i.floor (-340)).digits).length - 340

/-- Move trailing zeros of the digits into the exponent. -/
def Decimal.strip : Nat → Decimal → Decimal
  | 0, d => d
  | n + 1, d =>
      if d.digits % 10 = 0 then strip n ⟨d.digits / 10, d.exponent + 1⟩ else d

/-- The fewest digits that name the positive double `m · 2 ^ e`. -/
def shortest (m : Nat) (e : Int) : Decimal :=
  let i := Interval.ofFinite m e
  let found := (List.range 17).findSome? fun (n : Nat) => i.pick? (i.magnitude - Int.ofNat (n + 1))
  (found.getD (i.floor (i.magnitude - 17))).strip 17

/-- Lay out the digits of a positive decimal. -/
def layout (d : Decimal) : String :=
  let digits := Nat.toDigits 10 d.digits
  let count : Int := digits.length
  -- The point stands after this many digits.
  let point := count + d.exponent
  let text (cs : List Char) := String.ofList cs
  if 0 ≤ d.exponent ∧ point ≤ 16 then
    text (digits ++ List.replicate d.exponent.toNat '0') ++ ".0"
  else if 0 < point ∧ point ≤ 16 then
    text (digits.take point.toNat) ++ "." ++ text (digits.drop point.toNat)
  else if -5 < point ∧ point ≤ 0 then
    "0." ++ text (List.replicate (-point).toNat '0' ++ digits)
  else
    let sign := if point - 1 < 0 then "-" else "+"
    let exponent := "e" ++ sign ++ toString (point - 1).natAbs
    match digits with
    | [] => exponent
    | [c] => text [c] ++ exponent
    | c :: cs => text [c] ++ "." ++ text cs ++ exponent

end Shortest

namespace Binary

/-- The text of a double: the fewest digits that name it. -/
def text : Binary → String
  | nan => "NaN"
  | infinite negative => if negative then "-inf" else "inf"
  | finite negative m e =>
      let magnitude := if m = 0 then "0.0" else Shortest.layout (Shortest.shortest m e)
      if negative then "-" ++ magnitude else magnitude

end Binary

end SampleSchema
