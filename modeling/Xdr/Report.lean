import Xdr.Decl.Parser

/-!
# Reports

Faults of a source as a reader is told about them: the message, the place,
the line and a row of carets under the part that is meant.

## Design Notes

A span ends before its last position, so the carets run from the column
where it starts to the one before it ends; if it ends at the start of
another line, they still cover at least one column.
-/

namespace Xdr

/-- A message with its place. -/
abbrev Fault := Located String

/-- The faults of a source that could not be parsed, in order. -/
def ParseFailure.faults : ParseFailure → List Fault
  | .lexical errors => errors.map fun error => ⟨error.span, error.value.message⟩
  | .syntactic error => [⟨error.span, error.value.message⟩]

namespace Report

/-- A number of spaces. -/
def spaces (n : Nat) : String :=
  String.ofList (List.replicate n ' ')

/-- A text with spaces in front of it up to the given width. -/
def padded (width : Nat) (s : String) : String :=
  spaces (width - s.length) ++ s

/-- The lines of a span with their numbers, in a margin of the given width. -/
def excerptLines (source : Source) (width : Nat) (span : Span) : String :=
  String.join <| (List.range (span.stop.line + 1 - span.start.line)).map fun offset =>
    let line := span.start.line + offset
    padded width (toString line) ++ " | " ++ source.excerpt line ++ "\n"

/-- The columns that carets mark under a span: the first one and how many
there are. -/
def caretColumns (span : Span) : Nat × Nat :=
  let first := span.start.column
  let last := max (span.stop.column - 1) 1
  (min first last, max first last - min first last + 1)

/-- The report on one fault. -/
def block (kind : String) (source : Source) (fault : Fault) : String :=
  let width := (toString fault.span.stop.line).length
  let (column, count) := caretColumns fault.span
  kind ++ ": " ++ fault.value ++ "\n" ++
    " --> " ++ fault.span.text source.name ++ "\n" ++
    spaces width ++ " |\n" ++
    excerptLines source width fault.span ++
    spaces width ++ " | " ++ spaces (column - 1) ++
    String.ofList (List.replicate count '^') ++ "\n\n"

/-- The last line of a report. -/
def summary (count : Nat) : String :=
  "Compilation failed with " ++ toString count ++ (if count = 1 then " error\n"
    else " errors\n")

/-- The report on some faults of a source, each headed by the given kind. -/
def text (kind : String) (source : Source) (faults : List Fault) : String :=
  if faults.isEmpty then "No errors were reported\n"
  else String.join (faults.map (block kind source)) ++ summary faults.length

end Report
end Xdr
