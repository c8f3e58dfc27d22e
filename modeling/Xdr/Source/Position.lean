/-!
# Positions

A place in a source text, counted in lines and columns from one.

## Design Notes

Columns count characters, except that a tab leads to the next column
congruent to one modulo `tabStop`.

Lines and columns are natural numbers. `Source.position_lt_size` says that
those of a source of less than half a gigabyte are numbers of 32 bits, so
counting in such numbers gives the same.
-/

namespace Xdr

/-- A line and a column, both counted from one. -/
structure Position where
  line : Nat
  column : Nat
  deriving DecidableEq, Repr, Inhabited

namespace Position

/-- Distance between two tab stops. -/
def tabStop : Nat := 8

/-- The first position of a text. -/
def first : Position := ⟨1, 1⟩

/-- One column further. -/
def advance (p : Position) : Position :=
  ⟨p.line, p.column + 1⟩

/-- One column back, but never before the first. -/
def back (p : Position) : Position :=
  ⟨p.line, max (p.column - 1) 1⟩

/-- The first column of the next line. -/
def newline (p : Position) : Position :=
  ⟨p.line + 1, 1⟩

/-- The next tab stop on the same line. -/
def tab (p : Position) : Position :=
  ⟨p.line, 1 + ((p.column - 1) / tabStop + 1) * tabStop⟩

/-- The position that follows the character `c` at `p`. -/
def after (p : Position) (c : Char) : Position :=
  if c == '\n' then p.newline else if c == '\t' then p.tab else p.advance

/-- A position as `line:column`. -/
def text (p : Position) : String :=
  s!"{p.line}:{p.column}"

end Position

/-- The positions from `start` up to, but not including, `stop`. -/
structure Span where
  start : Position
  stop : Position
  deriving DecidableEq, Repr, Inhabited

namespace Span

/-- The span of the single character at `p`. -/
def single (p : Position) : Span :=
  ⟨p, p.advance⟩

/-- The span from the start of `a` to the end of `b`. -/
def join (a b : Span) : Span :=
  ⟨a.start, b.stop⟩

/-- A span within the source `name`: its first position, or first and last
when there are several on one line. -/
def text (name : String) (s : Span) : String :=
  if s.stop.line ≠ s.start.line ∨ s.stop.column ≤ s.start.column + 1 then
    name ++ ":" ++ s.start.text
  else
    name ++ ":[" ++ s.start.text ++ "-" ++ s.stop.back.text ++ "]"

end Span

/-- A value together with the span it was read from. -/
structure Located (α : Type) where
  span : Span
  value : α
  deriving DecidableEq, Repr

end Xdr
