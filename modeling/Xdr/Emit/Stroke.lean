import Xdr.Emit.Error
import Xdr.Output
import Xdr.Sink
import Xdr.Text.Utf8

/-!
# Strokes of the emitter

What the emitter does, step by step: it writes lines and keeps a counter for
the depth at which the next line stands.

## Main Definitions

* `Stroke` — one step of the emitter
* `Stroke.print` — the lines that some steps write, up to the first failure
* `Stroke.write` — the same steps on a sink

## Design Notes

Nothing ties a closing line to the line that it closes. A closing line and
the step back to the smaller depth are steps of their own, and lines that
are written with blanks of their own in front leave the counter alone. That
the counter returns where it came from is a fact about each emitter.

A line is written in three pieces: its indentation, its text and its end. A
sink may fail in any of them, and an emission that fails at some point has
written everything before that point.
-/

namespace Xdr

namespace Doc

/-- The blanks in front of a line at the given level. -/
def indentation (level : Nat) : String :=
  String.ofList (List.replicate (4 * level) ' ')

/-- A text at the given level of indentation. -/
def indented (level : Nat) (text : String) : String :=
  indentation level ++ text

/-- Printed lines as one text. -/
def text (lines : List String) : String :=
  String.join (lines.map (· ++ "\n"))

end Doc

/-- Something that is written: from the state of a sink to the state after
it, and why it stopped if it did not finish. -/
abbrev Writing (σ : Type) := σ → σ × Option EmitError

namespace Writing

variable {σ : Type}

/-- Goes on with more unless the first part stopped. -/
def andThen (first second : Writing σ) : Writing σ := fun state =>
  match first state with
  | (next, none) => second next
  | (next, some error) => (next, some error)

/-- Stops with an error. -/
def stop (error : EmitError) : Writing σ := fun state =>
  (state, some error)

/-- Writes nothing. -/
def done : Writing σ := fun state =>
  (state, none)

/-- Writes bytes to a sink, and stops if it does not take all of them. -/
def bytes (sink : Sink σ) (bytes : List UInt8) : Writing σ := fun state =>
  match sink.write bytes state with
  | (next, true) => (next, none)
  | (next, false) => (next, some .unwritable)

/-- Flushes a sink, and stops if that fails. -/
def flush (sink : Sink σ) : Writing σ := fun state =>
  match sink.flush state with
  | (next, true) => (next, none)
  | (next, false) => (next, some .unwritable)

/-- Writes a text to a sink. -/
def text (sink : Sink σ) (text : String) : Writing σ :=
  bytes sink (Text.utf8 text)

/-- Writes a line at the given level of indentation. -/
def line (sink : Sink σ) (level : Nat) (content : String) : Writing σ :=
  (text sink (Doc.indentation level)).andThen ((text sink content).andThen (text sink "\n"))

end Writing

/-- A step of the emitter. -/
inductive Stroke where
  /-- Writes an empty line. -/
  | blank
  /-- Writes a line at the depth reached. -/
  | line (text : String)
  /-- Adds one to the depth. -/
  | deeper
  /-- Takes one from the depth. -/
  | shallower
  /-- Fails. -/
  | fail (error : EmitError)
  deriving DecidableEq, Repr

namespace Stroke

/-- Opens a brace after a header. -/
def enter (header : String) : List Stroke :=
  [.line (header ++ " \x7b"), .deeper]

/-- Goes back by one and writes a text there, which closes what was opened. -/
def leaveWith (closers : String) : List Stroke :=
  [.shallower, .line closers]

/-- Closes a brace. -/
def leave : List Stroke :=
  leaveWith "\x7d"

/-- The lines that some steps write from a depth on, up to the first
failure. -/
def print (depth : Nat) : List Stroke → Output EmitError String
  | [] => .wrote []
  | .blank :: strokes => (Output.wrote [""]).andThen (print depth strokes)
  | .line text :: strokes =>
    (Output.wrote [Doc.indented depth text]).andThen (print depth strokes)
  | .deeper :: strokes => print (depth + 1) strokes
  | .shallower :: strokes => print (depth - 1) strokes
  | .fail error :: _ => .failed error

/-- Writes what some steps write from a depth on, up to the first failure. -/
def write {σ : Type} (sink : Sink σ) (depth : Nat) : List Stroke → Writing σ
  | [] => .done
  | .blank :: strokes => (Writing.text sink "\n").andThen (write sink depth strokes)
  | .line text :: strokes => (Writing.line sink depth text).andThen (write sink depth strokes)
  | .deeper :: strokes => write sink (depth + 1) strokes
  | .shallower :: strokes => write sink (depth - 1) strokes
  | .fail error :: _ => .stop error

end Stroke
end Xdr
