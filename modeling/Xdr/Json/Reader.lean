import Xdr.Binary
import Xdr.Json.Basic
import Xdr.Numeral

/-!
# Reading JSON

A reader for one value and nothing else, with a limit on nesting.

## Design Notes

An integer that fits is kept as it is. Any other number is a significand of
as many leading digits as fit into 64 bits, times a power of ten; each of
the two factors is rounded to a 64-bit binary number before they are
multiplied or divided. A number that is too large is an error; one that is
too small is zero.
-/

namespace Xdr.Json

/-- How deep arrays and objects may be nested. -/
def nestingLimit : Nat := 127

/-- A blank between the parts of a value. -/
def isGap (c : Char) : Bool :=
  c == ' ' || c == '\n' || c == '\t' || c == '\r'

/-- The greatest significand that is kept. -/
def maxSignificand : Nat := 0xffffffffffffffff

/-- The greatest exponent that is kept. -/
def maxExponent : Nat := 0x7fffffff

/-- The greatest power of ten with a finite number of its own. -/
def maxPower : Nat := 308

/-- A decimal digit. -/
def isDecimalDigit (c : Char) : Bool :=
  Numeral.isDigitIn 10 c

/-- Appends leading digits of a text to a significand as long as it stays
within `limit`. Gives the significand, the number of digits taken and what
is left. -/
def takeDigits (limit significand : Nat) : List Char → Nat × Nat × List Char
  | [] => (significand, 0, [])
  | c :: cs =>
    if isDecimalDigit c then
      let longer := significand * 10 + (c.toNat - '0'.toNat)
      if longer ≤ limit then
        let (result, taken, rest) := takeDigits limit longer cs
        (result, taken + 1, rest)
      else (significand, 0, c :: cs)
    else (significand, 0, c :: cs)

/-- The product of two positive 64-bit binary numbers, given by their bit
patterns. -/
def product (a b : Nat) : Nat :=
  match Binary.magnitude Binary.double a, Binary.magnitude Binary.double b with
  | .finite m p, .finite n q =>
    let (num, den) := Binary.ratio (m * n) (p + q)
    Binary.nearest Binary.double num den
  | _, _ => Binary.double.infinity

/-- The quotient of two positive 64-bit binary numbers, given by their bit
patterns. -/
def quotient (a b : Nat) : Nat :=
  match Binary.magnitude Binary.double a, Binary.magnitude Binary.double b with
  | .finite m p, .finite n q =>
    let (num, den) := Binary.ratio m (p - q)
    Binary.nearest Binary.double num (den * n)
  | _, _ => 0

/-- The 64-bit binary number nearest to a power of ten. -/
def powerOfTen (exponent : Nat) : Nat :=
  Binary.nearest Binary.double (Nat.pow 10 exponent) 1

/-- A positive number times a power of ten, or none if it is too large.
Powers below the least are divided out in steps, which reach zero in at most
three. -/
def scaleTen : Nat → Nat → Int → Option Nat
  | 0, _, _ => some 0
  | steps + 1, bits, exponent =>
    if exponent.natAbs ≤ maxPower then
      if 0 ≤ exponent then
        let scaled := product bits (powerOfTen exponent.natAbs)
        if scaled = Binary.double.infinity then none else some scaled
      else some (quotient bits (powerOfTen exponent.natAbs))
    else if bits = 0 then some 0
    else if 0 ≤ exponent then none
    else scaleTen steps (quotient bits (powerOfTen maxPower)) (exponent + maxPower)

/-- The number with the given sign, significand and power of ten. -/
def floatNumber (negative : Bool) (significand : Nat) (exponent : Int) : Option Number :=
  (scaleTen 4 (Binary.nearest Binary.double significand 1) exponent).map fun bits =>
    .float (UInt64.ofNat (Binary.withSign Binary.double negative bits))

/-- Reads what follows the mark of an exponent. -/
def readExponent (negative : Bool) (significand : Nat) (start : Int) (cs : List Char) :
    Option (Number × List Char) :=
  let (down, digits) := match cs with
    | '+' :: rest => (false, rest)
    | '-' :: rest => (true, rest)
    | _ => (false, cs)
  if digits.head?.any isDecimalDigit then
    let (exponent, _, rest) := takeDigits maxExponent 0 digits
    if rest.head?.any isDecimalDigit then
      if significand ≠ 0 ∧ !down then none
      else (floatNumber negative 0 0).map fun number =>
        (number, rest.dropWhile isDecimalDigit)
    else
      (floatNumber negative significand (if down then start - exponent
        else start + exponent)).map fun number => (number, rest)
  else none

/-- Reads an exponent, if there is one, after a significand with the power
of ten `start`. -/
def readScale (negative : Bool) (significand : Nat) (start : Int) (cs : List Char) :
    Option (Number × List Char) :=
  match cs with
  | 'e' :: rest => readExponent negative significand start rest
  | 'E' :: rest => readExponent negative significand start rest
  | _ => (floatNumber negative significand start).map fun number => (number, cs)

/-- Reads what follows the point of a number. -/
def readFraction (negative : Bool) (significand : Nat) (start : Int) (cs : List Char) :
    Option (Number × List Char) :=
  if cs.head?.any isDecimalDigit then
    let (longer, taken, rest) := takeDigits maxSignificand significand cs
    readScale negative longer (start - taken) (rest.dropWhile isDecimalDigit)
  else none

/-- Reads a number after its sign. -/
def readNumber (negative : Bool) (cs : List Char) : Option (Number × List Char) :=
  if !cs.head?.any isDecimalDigit then none
  else if cs.head? == some '0' && cs.tail.head?.any isDecimalDigit then none
  else
    let (significand, _, left) := takeDigits maxSignificand 0 cs
    let skipped := (left.takeWhile isDecimalDigit).length
    let rest := left.drop skipped
    match rest with
    | '.' :: fraction => readFraction negative significand skipped fraction
    | 'e' :: _ => readScale negative significand skipped rest
    | 'E' :: _ => readScale negative significand skipped rest
    | _ =>
      if skipped ≠ 0 then readScale negative significand skipped rest
      else if !negative then some (.int significand, rest)
      else if significand = 0 ∨ 0x8000000000000000 < significand then
        readScale negative significand 0 rest
      else some (.int (-(significand : Int)), rest)

/-- The number that four hexadecimal digits spell. -/
def readHex (a b c d : Char) : Option Nat :=
  Numeral.readNat 16 [a, b, c, d]

/-- The character that a single-character escape stands for. -/
def unescape (c : Char) : Option Char :=
  if c == '\x22' || c == '\x5c' || c == '/' then some c
  else if c == 'b' then some '\x08'
  else if c == 'f' then some '\x0c'
  else if c == 'n' then some '\n'
  else if c == 'r' then some '\r'
  else if c == 't' then some '\t'
  else none

/-- Reads the rest of a string after its opening quote. -/
def readString : List Char → Option (List Char × List Char)
  | [] => none
  | '\x22' :: rest => some ([], rest)
  | '\x5c' :: 'u' :: a :: b :: c :: d :: rest =>
    match readHex a b c d with
    | none => none
    | some unit =>
      if 0xdc00 ≤ unit ∧ unit ≤ 0xdfff then none
      else if 0xd800 ≤ unit ∧ unit ≤ 0xdbff then
        match rest with
        | '\x5c' :: 'u' :: a :: b :: c :: d :: rest =>
          match readHex a b c d with
          | none => none
          | some low =>
            if 0xdc00 ≤ low ∧ low ≤ 0xdfff then
              (readString rest).map fun (cs, left) =>
                (Char.ofNat (0x10000 + (unit - 0xd800) * 0x400 + (low - 0xdc00)) :: cs, left)
            else none
        | _ => none
      else (readString rest).map fun (cs, left) => (Char.ofNat unit :: cs, left)
  | '\x5c' :: c :: rest =>
    match unescape c with
    | none => none
    | some plain => (readString rest).map fun (cs, left) => (plain :: cs, left)
  | c :: rest =>
    if c == '\x5c' || c.toNat < 32 then none
    else (readString rest).map fun (cs, left) => (c :: cs, left)

/-- What is left of a text after leading gaps. -/
def skipGap (cs : List Char) : List Char :=
  cs.dropWhile isGap

/-- What is left of a text after the given one. -/
def skipText : List Char → List Char → Option (List Char)
  | [], cs => some cs
  | _ :: _, [] => none
  | e :: es, c :: cs => if e == c then skipText es cs else none

mutual

/-- Reads a value from its first character on. Each call uses one step, and
`depth` more containers may be opened. -/
def readValue : Nat → Nat → List Char → Option (Json × List Char)
  | 0, _, _ => none
  | _ + 1, _, [] => none
  | steps + 1, depth, c :: cs =>
    if c == '\x22' then (readString cs).map fun (s, rest) => (.string (String.ofList s), rest)
    else if c == '-' then (readNumber true cs).map fun (n, rest) => (.number n, rest)
    else if isDecimalDigit c then (readNumber false (c :: cs)).map fun (n, rest) =>
      (.number n, rest)
    else if c == 'n' then (skipText "ull".toList cs).map fun rest => (.null, rest)
    else if c == 't' then (skipText "rue".toList cs).map fun rest => (.bool true, rest)
    else if c == 'f' then (skipText "alse".toList cs).map fun rest => (.bool false, rest)
    else if depth = 0 then none
    else if c == '[' then
      match skipGap cs with
      | ']' :: rest => some (.array [], rest)
      | rest =>
        (readItems steps (depth - 1) rest).map fun (items, rest) => (.array items, rest)
    else if c == '\x7b' then
      match skipGap cs with
      | '\x7d' :: rest => some (.object [], rest)
      | rest =>
        (readMembers steps (depth - 1) [] rest).map fun (members, rest) =>
          (.object members, rest)
    else none

/-- Reads the items of an array, of which there is at least one, and its
end. -/
def readItems : Nat → Nat → List Char → Option (List Json × List Char)
  | 0, _, _ => none
  | steps + 1, depth, cs =>
    match readValue steps depth cs with
    | none => none
    | some (item, rest) =>
      match skipGap rest with
      | ']' :: rest => some ([item], rest)
      | ',' :: rest =>
        (readItems steps depth (skipGap rest)).map fun (items, rest) => (item :: items, rest)
      | _ => none

/-- Reads the members of an object, of which there is at least one, and its
end. `earlier` holds the members before them. -/
def readMembers : Nat → Nat → Table Json → List Char → Option (Table Json × List Char)
  | 0, _, _, _ => none
  | steps + 1, depth, earlier, cs =>
    match cs with
    | '\x22' :: cs =>
      match readString cs with
      | none => none
      | some (key, rest) =>
        match skipGap rest with
        | ':' :: rest =>
          match readValue steps depth (skipGap rest) with
          | none => none
          | some (value, rest) =>
            let members := earlier.insert (String.ofList key) value
            match skipGap rest with
            | '\x7d' :: rest => some (members, rest)
            | ',' :: rest => readMembers steps depth members (skipGap rest)
            | _ => none
        | _ => none
    | _ => none

end

/-- The value that a text spells, with blanks around it. Every step but the
first follows a character read, so twice the length is enough of them. -/
def parse (text : String) : Option Json :=
  let cs := skipGap text.toList
  match readValue (2 * cs.length + 1) nestingLimit cs with
  | some (value, rest) => if (skipGap rest).isEmpty then some value else none
  | none => none

end Xdr.Json
