/-!
# Numerals

The integer spellings of the language: an optional sign, then `0x` and
hexadecimal digits, or decimal digits, of which several that start with zero
and stay below eight are octal.

## Design Notes

A source literal is checked before its spelling becomes canonical: the check
reads leading zeros as decimal. `value?` reads what `canonical` writes, and
every value lies in the 64-bit signed range.
-/

namespace Xdr.Numeral

/-- The value of a digit in bases up to sixteen. -/
def digitValue? (c : Char) : Option Nat :=
  if '0' ≤ c ∧ c ≤ '9' then some (c.toNat - '0'.toNat)
  else if 'a' ≤ c ∧ c ≤ 'f' then some (c.toNat - 'a'.toNat + 10)
  else if 'A' ≤ c ∧ c ≤ 'F' then some (c.toNat - 'A'.toNat + 10)
  else none

/-- A character that is a digit in the given base. -/
def isDigitIn (base : Nat) (c : Char) : Bool :=
  match digitValue? c with
  | some value => value < base
  | none => false

/-- Digits in `base`, most significant first, appended to the number `acc`. -/
def readDigits (base : Nat) (acc : Nat) : List Char → Option Nat
  | [] => some acc
  | c :: cs =>
    match digitValue? c with
    | some value => if value < base then readDigits base (acc * base + value) cs else none
    | none => none

/-- A number spelt with at least one digit of `base`. -/
def readNat (base : Nat) (cs : List Char) : Option Nat :=
  if cs.isEmpty then none else readDigits base 0 cs

/-- Splits off a leading minus or plus; the first component tells whether it
was a minus. -/
def splitSign : List Char → Bool × List Char
  | '-' :: cs => (true, cs)
  | '+' :: cs => (false, cs)
  | cs => (false, cs)

/-- A number in `base` with an optional sign. -/
def readInt (base : Nat) (cs : List Char) : Option Int :=
  let (negative, digits) := splitSign cs
  (readNat base digits).map fun n => if negative then -(n : Int) else n

/-- What follows the mark of a hexadecimal spelling. -/
def hexBody? : List Char → Option (List Char)
  | '0' :: 'x' :: cs => some cs
  | '0' :: 'X' :: cs => some cs
  | _ => none

/-- Whether a character goes on with a numeral of which `literal` was read:
a digit, a hexadecimal one after the mark, or the mark itself after a single
zero. -/
def continues (literal : List Char) (c : Char) : Bool :=
  let digits := literal.dropWhile fun sign => sign == '-' || sign == '+'
  if (hexBody? digits).isSome then isDigitIn 16 c
  else isDigitIn 10 c || (digits == ['0'] && (c == 'x' || c == 'X'))

/-- The texts that are integers: an optional sign, then `0x` and hexadecimal
digits, or decimal digits. -/
def isNumeral (cs : List Char) : Bool :=
  let digits := (splitSign cs).2
  match hexBody? digits with
  | some hex => !hex.isEmpty && hex.all (isDigitIn 16)
  | none => !digits.isEmpty && digits.all (isDigitIn 10)

/-- The least value of a numeral. -/
def least : Int := -0x8000000000000000

/-- The greatest value of a numeral. -/
def greatest : Int := 0x7fffffffffffffff

/-- A value within the limits, or none. -/
def within (value : Int) : Option Int :=
  if least ≤ value ∧ value ≤ greatest then some value else none

/-- What is wrong with a literal. -/
inductive Fault where
  /-- There are no digits after the hexadecimal mark. -/
  | malformed
  /-- The value does not fit into 64 bits. -/
  | overflow
  deriving DecidableEq, Repr

/-- What is wrong with a literal of a source, if anything. Digits without a
hexadecimal mark count as decimal here. -/
def check (cs : List Char) : Option Fault :=
  let (negative, digits) := splitSign cs
  let magnitude? : Option (Option Nat) :=
    match hexBody? digits with
    | some [] => none
    | some hex => some (readNat 16 hex)
    | none => some (readNat 10 digits)
  match magnitude? with
  | none => some .malformed
  | some none => some .overflow
  | some (some n) =>
    if (within (if negative then -(n : Int) else n)).isSome then none else some .overflow

/-- Several digits below eight that start with zero: an octal spelling. -/
def isOctal (digits : List Char) : Bool :=
  1 < digits.length && digits.head? == some '0' && digits.all (isDigitIn 8)

/-- The spelling that emitted code uses: no plus, `0x` in lower case, octal
digits after `0o`, and a single zero for any octal zero. -/
def canonical (cs : List Char) : List Char :=
  let unsigned := match cs with
    | '+' :: rest => rest
    | _ => cs
  let (sign, digits) := match unsigned with
    | '-' :: rest => (['-'], rest)
    | _ => ([], unsigned)
  match digits with
  | '0' :: 'X' :: hex => sign ++ ['0', 'x'] ++ hex
  | _ =>
    if isOctal digits then
      match digits.dropWhile (· == '0') with
      | [] => ['0']
      | rest => sign ++ ['0', 'o'] ++ rest
    else sign ++ digits

/-- The integer that a canonical spelling denotes, if it is well-formed and
within the limits. -/
def value? (cs : List Char) : Option Int :=
  let (negative, digits) := match cs with
    | '-' :: rest => (true, rest)
    | _ => (false, cs)
  let magnitude? := match digits with
    | '0' :: 'x' :: hex => readInt 16 hex
    | '0' :: 'o' :: octal => readInt 8 octal
    | _ => readInt 10 digits
  magnitude?.bind fun magnitude => within (if negative then -magnitude else magnitude)

end Xdr.Numeral
