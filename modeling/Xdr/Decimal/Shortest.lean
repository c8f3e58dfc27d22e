import Xdr.Binary

/-!
# Shortest decimals

The fewest decimal digits that read back as a given 64-bit number, and of
those the nearest to it.

## Design Notes

The reals that round to `m * 2 ^ q` lie between the midpoints to its
neighbours, and the midpoints belong to them exactly when `m` is even. On
the grid of `n`-digit decimals, a point of that interval exists only if one
of the two grid points around the number is in it, so testing those two for
`n = 1, 2, …` finds the least `n`. Seventeen digits are always enough.
Between two points at the same distance the even one is taken.

All tests are made in integers: the number and the interval's ends are
scaled by one common denominator.
-/

namespace Xdr

/-- The number `d.ddd * 10 ^ exponent` with the digits `d`, `ddd`, most
significant first. -/
structure Decimal where
  digits : List Nat
  exponent : Int
  deriving DecidableEq, Repr

namespace Decimal

/-- A positive number and the interval of reals that round to it, over a
common denominator. -/
structure Interval where
  low : Nat
  value : Nat
  high : Nat
  den : Nat
  closed : Bool
  deriving Repr

/-- The interval of reals that round to `significand * 2 ^ exponent`. -/
def interval (significand : Nat) (exponent : Int) : Interval :=
  let isPower :=
    significand = Nat.pow 2 Binary.double.fractionBits ∧
      Binary.double.leastExponent < exponent
  let (num, den) := Binary.ratio 1 exponent
  { low := (4 * significand - (if isPower then 1 else 2)) * num
    value := 4 * significand * num
    high := (4 * significand + 2) * num
    den := 4 * den
    closed := significand % 2 = 0 }

/-- Whether the point `point * 10 ^ grid` lies in the interval. -/
def Interval.contains (i : Interval) (point : Nat) (grid : Int) : Bool :=
  let (p, scale) :=
    if 0 ≤ grid then (point * Nat.pow 10 grid.toNat * i.den, 1)
    else (point * i.den, Nat.pow 10 (-grid).toNat)
  if i.closed then i.low * scale ≤ p && p ≤ i.high * scale
  else i.low * scale < p && p < i.high * scale

/-- The greatest `e` with `10 ^ e ≤ num / den`, searched downwards from
`guess`. -/
def logTen (num den : Nat) : Nat → Int → Int
  | 0, guess => guess
  | fuel + 1, guess =>
    let (n, d) :=
      if 0 ≤ guess then (num, den * Nat.pow 10 guess.toNat)
      else (num * Nat.pow 10 (-guess).toNat, den)
    if n < d then logTen num den fuel (guess - 1) else guess

/-- The digits of a positive number, most significant first. -/
def digitsOf (n : Nat) : List Nat :=
  (Nat.toDigits 10 n).map fun c => c.toNat - '0'.toNat

/-- The decimal `point * 10 ^ grid` without trailing zeros. -/
def ofPoint (point : Nat) (grid : Int) : Decimal :=
  let digits := digitsOf point
  { digits := (digits.reverse.dropWhile (· == 0)).reverse
    exponent := grid + digits.length - 1 }

/-- The better of the two points around the number on a grid, if one of them
is in the interval. -/
def candidate (i : Interval) (grid : Int) : Option Nat :=
  let (num, den) :=
    if 0 ≤ grid then (i.value, i.den * Nat.pow 10 grid.toNat)
    else (i.value * Nat.pow 10 (-grid).toNat, i.den)
  let below := num / den
  let near := Binary.halfEven num den
  let far := if near = below then below + 1 else below
  if 0 < near && i.contains near grid then some near
  else if 0 < far && i.contains far grid then some far
  else none

/-- The first grid, from `grid` on downwards, with a point in the interval. -/
def search (i : Interval) : Nat → Int → Decimal
  | 0, grid => ofPoint (i.value / i.den) grid
  | fuel + 1, grid =>
    match candidate i grid with
    | some point => ofPoint point grid
    | none => search i fuel (grid - 1)

/-- The shortest decimal that reads back as `significand * 2 ^ exponent`,
for a positive significand. -/
def shortest (significand : Nat) (exponent : Int) : Decimal :=
  let i := interval significand exponent
  let guess : Int := ((significand.log2 : Int) + exponent) * 30103 / 100000 + 1
  search i 18 (logTen i.value i.den 3 guess)

end Decimal
end Xdr
