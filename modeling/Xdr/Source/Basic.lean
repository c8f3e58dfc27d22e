import Xdr.Source.Position
import Xdr.Text.Utf8

/-!
# Sources

A named text, as the list of its lines, and the stream of characters it is
read as.

## Design Notes

A line that is not UTF-8 has no characters: it appears in the stream as one
`unreadable` item. Every other line contributes its characters and then a
newline, also when the source does not end in one. Positions count
unreadable lines; `excerpt` does not, since only readable lines have a text
to show.
-/

namespace Xdr

/-- A named text by lines; `none` stands for a line whose bytes are not
UTF-8. -/
structure Source where
  name : String
  lines : List (Option String)
  deriving Repr

/-- One step of reading: a character with the position that follows it, or a
line that cannot be read. -/
inductive Item where
  | char (c : Char) (next : Position)
  | unreadable
  deriving DecidableEq, Repr

namespace Source

/-- The lines of a byte string. Each ends at a newline, together with a
carriage return right before it; a last line may lack the newline. -/
def rawLines : List UInt8 → List (List UInt8)
  | [] => []
  | byte :: rest =>
    if byte == 10 then [] :: rawLines rest
    else if byte == 13 && rest.head? == some 10 then rawLines rest
    else
      match rawLines rest with
      | [] => [[byte]]
      | line :: lines => (byte :: line) :: lines

/-- The source `name` with the given content. -/
def ofBytes (name : String) (bytes : List UInt8) : Source :=
  ⟨name, (rawLines bytes).map Text.ofUtf8?⟩

/-- The source `name` with the given text. -/
def ofText (name text : String) : Source :=
  ofBytes name (Text.utf8 text)

/-- The items of a line whose remaining characters are given, the first of
them at `here`. -/
def lineItems (here : Position) : List Char → List Item
  | [] => [.char '\n' here.newline]
  | c :: cs => .char c (here.after c) :: lineItems (here.after c) cs

/-- The items of some lines, the first of which has number `line`. -/
def itemsFrom (line : Nat) : List (Option String) → List Item
  | [] => []
  | none :: lines => .unreadable :: itemsFrom (line + 1) lines
  | some text :: lines => lineItems ⟨line, 1⟩ text.toList ++ itemsFrom (line + 1) lines

/-- The characters of a source in order, each with the position that follows
it. -/
def items (source : Source) : List Item :=
  itemsFrom 1 source.lines

/-- The readable lines, in order. -/
def readable (source : Source) : List String :=
  source.lines.filterMap id

/-- The readable line with the given number, counted from one, or the empty
text. -/
def excerpt (source : Source) (line : Nat) : String :=
  if line = 0 then "" else source.readable[line - 1]?.getD ""

/-- The source up to its first unreadable line. -/
def reached (source : Source) : Source :=
  { source with lines := source.lines.takeWhile Option.isSome }

end Source
end Xdr
