/-!
# Binary floating point

Bit patterns of the 32-bit and 64-bit binary formats, and the number nearest
to a ratio, in exact integer arithmetic.

## Design Notes

A finite number is `significand * 2 ^ exponent`. Bit patterns without their
sign increase with the numbers they stand for, so rounding up to the next
power of two, and on to infinity, needs no case of its own.
-/

namespace Xdr.Binary

/-- A format: a sign, an exponent field and a fraction field. -/
structure Format where
  exponentBits : Nat
  fractionBits : Nat
  deriving DecidableEq, Repr

/-- The 32-bit format. -/
def single : Format := ⟨8, 23⟩

/-- The 64-bit format. -/
def double : Format := ⟨11, 52⟩

namespace Format

/-- The exponent of the last place of the least numbers. -/
def leastExponent (format : Format) : Int :=
  2 - Nat.pow 2 (format.exponentBits - 1) - format.fractionBits

/-- The bit pattern of positive infinity. -/
def infinity (format : Format) : Nat :=
  (Nat.pow 2 format.exponentBits - 1) * Nat.pow 2 format.fractionBits

/-- The value of the sign bit. -/
def signBit (format : Format) : Nat :=
  Nat.pow 2 (format.exponentBits + format.fractionBits)

end Format

/-- What a bit pattern stands for, apart from its sign. -/
inductive Magnitude where
  | finite (significand : Nat) (exponent : Int)
  | infinite
  | nan
  deriving DecidableEq, Repr

/-- The sign of a bit pattern, true for negative. -/
def isNegative (format : Format) (bits : Nat) : Bool :=
  bits / format.signBit % 2 == 1

/-- What a bit pattern stands for, apart from its sign. -/
def magnitude (format : Format) (bits : Nat) : Magnitude :=
  let fraction := bits % Nat.pow 2 format.fractionBits
  let exponent := bits / Nat.pow 2 format.fractionBits % Nat.pow 2 format.exponentBits
  if exponent = Nat.pow 2 format.exponentBits - 1 then
    if fraction = 0 then .infinite else .nan
  else if exponent = 0 then .finite fraction format.leastExponent
  else
    .finite (fraction + Nat.pow 2 format.fractionBits) (format.leastExponent + exponent - 1)

/-- The quotient rounded to the nearest integer, a half going to the even
one. -/
def halfEven (num den : Nat) : Nat :=
  let quotient := num / den
  let twice := 2 * (num % den)
  if twice < den then quotient
  else if den < twice then quotient + 1
  else quotient + quotient % 2

/-- The ratio `num / den` divided by `2 ^ exponent`, as numerator and
denominator. -/
def scale (num den : Nat) (exponent : Int) : Nat × Nat :=
  if 0 ≤ exponent then (num, den * Nat.pow 2 exponent.toNat)
  else (num * Nat.pow 2 (-exponent).toNat, den)

/-- The greatest `e` with `2 ^ e ≤ num / den`, for a positive ratio. -/
def logRatio (num den : Nat) : Int :=
  let guess : Int := (num.log2 : Int) - den.log2
  let (n, d) := scale num den guess
  if n < d then guess - 1 else guess

/-- The bit pattern nearest to a ratio, a half going to the even neighbour. -/
def nearest (format : Format) (num den : Nat) : Nat :=
  if num = 0 then 0
  else
    let exponent := max (logRatio num den - format.fractionBits) format.leastExponent
    let (n, d) := scale num den exponent
    min ((exponent - format.leastExponent).toNat * Nat.pow 2 format.fractionBits +
      halfEven n d) format.infinity

/-- A finite number as numerator and denominator. -/
def ratio (significand : Nat) (exponent : Int) : Nat × Nat :=
  scale significand 1 (-exponent)

/-- The bit pattern with the given sign. -/
def withSign (format : Format) (negative : Bool) (bits : Nat) : Nat :=
  if negative then format.signBit + bits else bits

/-- A number of the format `source` in the format `target`: the nearest one,
or the same infinity. A pattern that is no number becomes one that is none. -/
def convert (source target : Format) (bits : Nat) : Nat :=
  withSign target (isNegative source bits) <|
    match magnitude source bits with
    | .finite significand exponent =>
      let (num, den) := ratio significand exponent
      nearest target num den
    | .infinite => target.infinity
    | .nan => target.infinity + Nat.pow 2 (target.fractionBits - 1)

end Xdr.Binary
