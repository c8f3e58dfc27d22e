import Xdr.Files.Host
import Xdr.Tool.Basic

/-!
# Copying

The tool that copies files to its output, one after the other, and on the
way may number lines, leave out repeated blank lines, and show what cannot
be seen.
-/

namespace Xdr.Tool

open Text (Raw)

structure CopyOptions where
  /-- Numbers all lines. -/
  number : Bool
  /-- Numbers the lines that are not blank. -/
  numberText : Bool
  /-- Leaves out a blank line after another one. -/
  squeeze : Bool
  /-- Marks the ends of lines. -/
  ends : Bool
  /-- Shows tabs. -/
  tabs : Bool
  /-- Shows other characters that cannot be seen. -/
  controls : Bool
  deriving DecidableEq, Repr

def copyUsage : Usage where
  letters := "benstuvAET".toList
  longNames := [("number-nonblank", 'b'), ("number", 'n'), ("squeeze-blank", 's'),
    ("show-nonprinting", 'v'), ("show-ends", 'E'), ("show-tabs", 'T'), ("show-all", 'A')]
  anywhere := true

def CopyOptions.ofLetters (letters : List Char) : CopyOptions :=
  let has (names : String) := letters.any names.toList.contains
  { number := has "n" && !has "b"
    numberText := has "b"
    squeeze := has "s"
    ends := has "eEA"
    tabs := has "tTA"
    controls := has "vetA" }

/-- Where copying stands: the number of the last line, and how the last line
began. -/
structure CopyState where
  line : Nat
  /-- Whether a line has begun. -/
  inside : Bool
  /-- How many blank lines stand in a row. -/
  blanks : Nat
  /-- Whether a carriage return waits for what follows it. -/
  waiting : Bool
  deriving DecidableEq, Repr

namespace CopyState

def initial : CopyState := ⟨0, false, 0, false⟩

def numberText (line : Nat) : Raw :=
  let digits := (toString line).toList
  List.replicate (6 - digits.length) ' ' ++ digits ++ ['\t']

/-- A character below the blank, or the one after the last that can be seen,
with a caret. -/
def caret (n : Nat) : Raw :=
  if n = 127 then ['^', '?'] else ['^', Char.ofNat (n + 64)]

def shown (options : CopyOptions) (c : Char) : Raw :=
  let n := c.toNat
  if c == '\t' then if options.tabs then caret n else [c]
  else if !options.controls then [c]
  else if n < 32 || n = 127 then caret n
  else if n < 127 then [c]
  else
    let low := n - 128
    ['M', '-'] ++ if low < 32 || low = 127 then caret low else [Char.ofNat low]

/-- What becomes of the end of a line, and where copying stands after it. -/
def newline (options : CopyOptions) (state : CopyState) : Raw × CopyState :=
  let ending := if options.ends then ['$', '\n'] else ['\n']
  if state.inside then (ending, { state with inside := false, blanks := 0 })
  else if options.squeeze && 1 ≤ state.blanks then
    ([], { state with blanks := state.blanks + 1 })
  else if options.number then
    (numberText (state.line + 1) ++ ending, { state with
      line := state.line + 1, blanks := state.blanks + 1 })
  else (ending, { state with blanks := state.blanks + 1 })

def inLine (options : CopyOptions) (state : CopyState) (c : Char) : Raw × CopyState :=
  if !state.inside && (options.number || options.numberText) then
    (numberText (state.line + 1) ++ shown options c, { state with
      line := state.line + 1, inside := true })
  else (shown options c, { state with inside := true })

/-- What becomes of a character. A carriage return in front of a marked end
of a line is shown. -/
def step (options : CopyOptions) (state : CopyState) (c : Char) : Raw × CopyState :=
  let (before, state) :=
    if state.waiting then
      let held := if c == '\n' then ['^', 'M'] else ['\r']
      (held, { state with waiting := false })
    else ([], state)
  if c == '\n' then
    let (after, state) := state.newline options
    (before ++ after, state)
  else if c == '\r' && options.ends && !options.controls then
    let (after, state) := state.inLine options c
    (before ++ after.dropLast, { state with waiting := true })
  else
    let (after, state) := state.inLine options c
    (before ++ after, state)

/-- What becomes of a text, in reverse and in front of what was written
before. -/
def steps (options : CopyOptions) : CopyState → Raw → Raw → Raw × CopyState
  | state, written, [] => (written, state)
  | state, written, c :: cs =>
    let (out, next) := state.step options c
    steps options next (out.reverse ++ written) cs

def all (options : CopyOptions) (state : CopyState) (text : Raw) : Raw × CopyState :=
  let (written, after) := steps options state [] text
  (written.reverse, after)

end CopyState

section

variable {m : Type → Type} [Monad m]

/-- The content that an operand names, and what is left of the input. A dash
names the input. -/
def copySource (host : Host m) (operand input : Raw) : m (Except HostError (Raw × Raw)) := do
  let path := Text.ofRaw operand
  if operand == ['-'] || (Path.ofString path).streamNumber? == some 0 then
    return .ok (input, [])
  else return (← host.read path).map fun bytes => (Text.rawOfBytes bytes, input)

def copyAll (host : Host m) (called : Raw) (options : CopyOptions) :
    CopyState → Outcome → List Raw → m Outcome
  | state, outcome, [] =>
    return if state.waiting then
      { outcome with writes := outcome.writes ++ [(.output, ['\r'])] } else outcome
  | state, outcome, operand :: operands => do
    match ← copySource host operand outcome.unread with
    | .ok (text, unread) =>
      let (copied, next) := state.all options text
      copyAll host called options next ⟨outcome.writes ++ [(.output, copied)], unread,
        outcome.ending⟩ operands
    | .error error =>
      let complaint : Complaint :=
        ⟨quotedName operand ++ Text.raw s!": {error.reason}", false⟩
      copyAll host called options state
        ⟨outcome.writes ++ [(.errors, complaint.shown called)], outcome.unread,
          .exited 1⟩ operands

/-- Copies the files that its operands name, or its input if there are none.
-/
def copy (host : Host m) (called : Raw) (args : List Raw) (input : Raw) : m Outcome :=
  match copyUsage.read args with
  | .error complaint => return .complained (complaint.shown called) input
  | .ok (letters, operands) =>
    copyAll host called (.ofLetters letters) .initial ⟨[], input, .exited 0⟩
      (if operands.isEmpty then [['-']] else operands)

end

end Xdr.Tool
