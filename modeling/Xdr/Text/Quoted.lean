import Xdr.Text.Visible

/-!
# Quoted text

Messages show a stray character or name between quotes, with escapes for
what a reader could not see.

## Design Notes

Only the quote that delimits the text is escaped. A character that is not
visible is written by its number, in lower-case hexadecimal digits between
braces.
-/

namespace Xdr.Text

/-- The lower-case hexadecimal digits of a number, without leading zeros. -/
def hexDigits (n : Nat) : List Char :=
  Nat.toDigits 16 n

/-- A character of a text delimited by `quote`, escaped where it has to be. -/
def escapeWithin (quote c : Char) : List Char :=
  if c == quote || c == '\x5c' then ['\x5c', c]
  else if c == '\n' then ['\x5c', 'n']
  else if c == '\r' then ['\x5c', 'r']
  else if c == '\t' then ['\x5c', 't']
  else if c.toNat == 0 then ['\x5c', '0']
  else if isVisible c then [c]
  else ['\x5c', 'u', '\x7b'] ++ hexDigits c.toNat ++ ['\x7d']

/-- The delimiter of a quoted character. -/
def charQuote : Char := '\x27'

/-- The delimiter of a quoted text. -/
def stringQuote : Char := '\x22'

/-- A character between single quotes. -/
def quoteChar (c : Char) : String :=
  String.ofList ([charQuote] ++ escapeWithin charQuote c ++ [charQuote])

/-- A text between double quotes. -/
def quoteString (s : String) : String :=
  String.ofList ([stringQuote] ++ s.toList.flatMap (escapeWithin stringQuote) ++
    [stringQuote])

end Xdr.Text
