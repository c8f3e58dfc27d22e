import Xdr.Text.Raw

/-!
# Numerals

Numbers at the beginning of a raw text, in the base that their first digits
tell.
-/

namespace Xdr.Text

/-- The greatest number of 64 bits with a sign. -/
def greatest : Int := 0x7fffffffffffffff

/-- The least number of 64 bits with a sign. -/
def least : Int := -0x8000000000000000

/-- A number that stays within the range of 64 bits with a sign. -/
def saturate (n : Int) : Int :=
  if greatest < n then greatest else if n < least then least else n

/-- The value of a digit in any base up to sixteen. -/
def digitValue (c : Char) : Nat :=
  if c.isDigit then c.toNat - 48
  else if 'a' ≤ c && c ≤ 'f' then c.toNat - 87
  else if 'A' ≤ c && c ≤ 'F' then c.toNat - 55
  else 16

/-- The number that digits in a base stand for. -/
def ofDigits (base : Nat) (digits : Raw) : Nat :=
  digits.foldl (fun n c => n * base + digitValue c) 0

/-- The number that decimal digits stand for. -/
def decimal (digits : Raw) : Nat :=
  ofDigits 10 digits

/-- The digits of a base at the beginning of a text. -/
def digitsAt (base : Nat) (cs : Raw) : Raw :=
  cs.takeWhile fun c => digitValue c < base

/-- The number at the beginning of a text in a base, and what follows it. -/
def readBase (base : Nat) (cs : Raw) : Option (Nat × Raw) :=
  let digits := digitsAt base cs
  if digits.isEmpty then none else some (ofDigits base digits, cs.drop digits.length)

/-- The number at the beginning of a text, in the base that its first digits
tell, and what follows it. -/
def readNatural (cs : Raw) : Option (Nat × Raw) :=
  match cs with
  | '0' :: x :: rest =>
    if x == 'x' || x == 'X' then
      match readBase 16 rest with
      | some result => some result
      | none => some (0, x :: rest)
    else readBase 8 cs
  | _ => readBase 10 cs

/-- A blank in front of a number. -/
def isNumberBlank (c : Char) : Bool :=
  c == ' ' || ('\t' ≤ c && c ≤ '\r')

/-- The number that a rule finds at the beginning of a text, after blanks
and a sign, and what follows it. -/
def readSigned (rule : Raw → Option (Nat × Raw)) (text : Raw) : Option (Int × Raw) :=
  let (sign, cs) : Int × Raw := match text.dropWhile isNumberBlank with
    | '-' :: rest => (-1, rest)
    | '+' :: rest => (1, rest)
    | cs => (1, cs)
  (rule cs).map fun (n, rest) => (sign * n, rest)

/-- The number at the beginning of a text, after blanks and a sign, and what
follows it. -/
def readInteger (text : Raw) : Option (Int × Raw) :=
  readSigned readNatural text

/-- The number that a text is as a whole, with blanks around it, if it fits
into 64 bits. -/
def wholeDecimal? (text : Raw) : Option Int :=
  match readSigned (readBase 10) text with
  | some (n, rest) =>
    if (rest.dropWhile isNumberBlank).isEmpty && saturate n == n then some n else none
  | none => none

/-- The number that a text is as a whole, with blanks around it, in the base
that its first digits tell; a blank text is zero. -/
def wholeNumber? (text : Raw) : Option Int :=
  if text.all isNumberBlank then some 0
  else
    match readInteger text with
    | some (n, rest) =>
      if (rest.dropWhile isNumberBlank).isEmpty then some (saturate n) else none
    | none => none

end Xdr.Text
