import Xdr.Decimal.Shortest
import Xdr.Json.Basic

/-!
# JSON text

Values as text, on one line or indented.

## Design Notes

A 64-bit binary number is written with its shortest decimal: positionally
where the power of ten of the first digit is from `plainFrom` up to below
`plainBelow`, and with a signed exponent elsewhere. Patterns that are no
finite number become `null`.
-/

namespace Xdr.Json

/-- The hexadecimal digit of a number below sixteen. -/
def hexDigit (n : Nat) : Char :=
  Nat.digitChar n

/-- A character of a string, escaped where it has to be. -/
def escapeChar (c : Char) : List Char :=
  if c == '\x22' || c == '\x5c' then ['\x5c', c]
  else if c == '\x08' then ['\x5c', 'b']
  else if c == '\t' then ['\x5c', 't']
  else if c == '\n' then ['\x5c', 'n']
  else if c == '\x0c' then ['\x5c', 'f']
  else if c == '\r' then ['\x5c', 'r']
  else if c.toNat < 32 then ['\x5c', 'u', '0', '0', hexDigit (c.toNat / 16),
    hexDigit (c.toNat % 16)]
  else [c]

/-- A string between quotes. -/
def stringText (s : String) : List Char :=
  ['\x22'] ++ s.toList.flatMap escapeChar ++ ['\x22']

/-- The least power of ten that is written positionally. -/
def plainFrom : Int := -5

/-- The least power of ten, above the positional ones, that is written as an
exponent. -/
def plainBelow : Int := 16

/-- Decimal digits as characters. -/
def digitChars (digits : List Nat) : List Char :=
  digits.map Nat.digitChar

/-- A decimal as text, with at least one digit after the point where it is
positional. -/
def decimalText (d : Decimal) : List Char :=
  let digits := digitChars d.digits
  if plainFrom ≤ d.exponent ∧ d.exponent < plainBelow then
    if 0 ≤ d.exponent then
      let width := d.exponent.toNat + 1
      let fraction := digits.drop width
      digits.take width ++ List.replicate (width - digits.length) '0' ++ ['.'] ++
        (if fraction.isEmpty then ['0'] else fraction)
    else
      ['0', '.'] ++ List.replicate ((-d.exponent).toNat - 1) '0' ++ digits
  else
    let fraction := digits.drop 1
    digits.take 1 ++ (if fraction.isEmpty then [] else '.' :: fraction) ++
      ['e', if 0 ≤ d.exponent then '+' else '-'] ++ Nat.toDigits 10 d.exponent.natAbs

/-- A 64-bit binary number as text. -/
def floatText (bits : UInt64) : List Char :=
  let sign := if Binary.isNegative Binary.double bits.toNat then ['-'] else []
  match Binary.magnitude Binary.double bits.toNat with
  | .finite 0 _ => sign ++ ['0', '.', '0']
  | .finite significand exponent =>
    sign ++ decimalText (Decimal.shortest significand exponent)
  | _ => "null".toList

/-- An integer as text. -/
def intText (n : Int) : List Char :=
  if n < 0 then '-' :: Nat.toDigits 10 n.natAbs else Nat.toDigits 10 n.natAbs

/-- A number as text. -/
def numberText : Number → List Char
  | .int n => intText n
  | .float bits => floatText bits

mutual

/-- The characters of a value without blanks. -/
def compactText : Json → List Char
  | .null => "null".toList
  | .bool true => "true".toList
  | .bool false => "false".toList
  | .number n => numberText n
  | .string s => stringText s
  | .array [] => ['[', ']']
  | .array (item :: items) => ['['] ++ compactText item ++ compactItems items ++ [']']
  | .object [] => ['\x7b', '\x7d']
  | .object ((key, value) :: members) =>
    ['\x7b'] ++ stringText key ++ [':'] ++ compactText value ++
      compactMembers members ++ ['\x7d']

/-- The items of an array after the first. -/
def compactItems : List Json → List Char
  | [] => []
  | item :: items => [','] ++ compactText item ++ compactItems items

/-- The members of an object after the first. -/
def compactMembers : List (String × Json) → List Char
  | [] => []
  | (key, value) :: members =>
    [','] ++ stringText key ++ [':'] ++ compactText value ++ compactMembers members

end

/-- A value without blanks. -/
def compact (value : Json) : String :=
  String.ofList (compactText value)

/-- A new line at the given level. -/
def newLine (level : Nat) : List Char :=
  '\n' :: List.replicate (2 * level) ' '

mutual

/-- The characters of a value at the given level of indentation. -/
def prettyText (level : Nat) : Json → List Char
  | .array [] => ['[', ']']
  | .array (item :: items) =>
    ['['] ++ newLine (level + 1) ++ prettyText (level + 1) item ++
      prettyItems (level + 1) items ++ newLine level ++ [']']
  | .object [] => ['\x7b', '\x7d']
  | .object ((key, value) :: members) =>
    ['\x7b'] ++ newLine (level + 1) ++ stringText key ++ [':', ' '] ++
      prettyText (level + 1) value ++
      prettyMembers (level + 1) members ++ newLine level ++ ['\x7d']
  | other => compactText other

/-- The items of an array after the first. -/
def prettyItems (level : Nat) : List Json → List Char
  | [] => []
  | item :: items =>
    [','] ++ newLine level ++ prettyText level item ++ prettyItems level items

/-- The members of an object after the first. -/
def prettyMembers (level : Nat) : List (String × Json) → List Char
  | [] => []
  | (key, value) :: members =>
    [','] ++ newLine level ++ stringText key ++ [':', ' '] ++ prettyText level value ++
      prettyMembers level members

end

/-- A value with two spaces of indentation for each level. -/
def pretty (value : Json) : String :=
  String.ofList (prettyText 0 value)

end Xdr.Json
