/-!
# Doubles Taken Apart

What a double-precision number stands for, as integers.

A finite double is a sign, a natural mantissa and a power of two. Everything
the library asks of a number can be answered from these three: whether it is
a whole number, and which decimal text names it. The decoding reads the bits
directly, so no rounding is involved and no operation on doubles has to be
trusted.

## Main definitions

* `Binary`: Not a number, an infinity, or sign, mantissa and exponent.
* `Binary.ofFloat`: Take a double apart.
* `Binary.isWhole`: The value is finite and has no fractional part.
-/

namespace SampleSchema

/-- The value of a double. -/
inductive Binary
  /-- No number at all. -/
  | nan
  /-- Beyond every number. -/
  | infinite (negative : Bool)
  /-- The number `mantissa · 2 ^ exponent`, with its sign. -/
  | finite (negative : Bool) (mantissa : Nat) (exponent : Int)
  deriving DecidableEq, Repr

namespace Binary

/-- Take a double apart. The leading bit of a mantissa is not stored, except
    in the lowest exponent, where there is none. -/
def ofFloat (x : Float) : Binary :=
  let bits := x.toBits.toNat
  let negative := bits / Nat.pow 2 63 == 1
  let exponent : Nat := bits / Nat.pow 2 52 % Nat.pow 2 11
  let fraction : Nat := bits % Nat.pow 2 52
  if exponent = 2047 then
    if fraction = 0 then .infinite negative else .nan
  else if exponent = 0 then .finite negative fraction (-1074)
  else .finite negative (fraction + Nat.pow 2 52) (Int.ofNat exponent - 1075)

/-- The value is a number, neither infinite nor undefined. -/
def isFinite : Binary → Bool
  | finite _ _ _ => true
  | _ => false

/-- The value is a number without fractional part. -/
def isWhole : Binary → Bool
  | finite _ m e => m % Nat.pow 2 (-e).toNat == 0
  | _ => false

end Binary

end SampleSchema
