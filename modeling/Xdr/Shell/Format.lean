import Xdr.Tool.Format

/-!
# Formatted output

How the commands of the shell that only write read their words.
-/

namespace Xdr.Shell

open Text (Raw)
open Tool (Escape)

/-- An escape of a format. A backslash that begins no escape stands for
itself. -/
def formatEscape (cs : Raw) : Escape :=
  match cs with
  | [] => .shows ['\x5c'] []
  | 'e' :: rest => .shows ['\x1b'] rest
  | c :: rest =>
    match Tool.letterEscape? c with
    | some shown => .shows [shown] rest
    | none => if Text.digitValue c < 8 then Tool.octalEscaped cs else .shows ['\x5c'] cs

def wordEscape (cs : Raw) : Escape :=
  match cs with
  | 'c' :: _ => .ends
  | '0' :: rest => Tool.octalEscaped rest
  | _ => formatEscape cs

/-- Words with a space between them and an end after them, up to where one
of them tells to end. -/
def echoedWords (last : Raw) : List Raw → Raw
  | [] => last
  | word :: words =>
    let (text, stopped) := Tool.unescaped wordEscape word
    if stopped.isSome then text
    else if words.isEmpty then text ++ last
    else text ++ ' ' :: echoedWords last words

/-- Words as they are shown in a line, whose end the first of them can leave
out. -/
def echoed (words : List Raw) : Raw :=
  match words with
  | ['-', 'n'] :: rest => echoedWords [] rest
  | _ => echoedWords ['\n'] words

def formatRules : Tool.FormatRules where
  escape := formatEscape
  wordEscape := wordEscape
  shown := id
  notNumber := "expected numeric value"
  notWhole := "not completely converted"
  badConversion := "invalid directive"
  noLetter := some "missing format character"
  sizes := []

end Xdr.Shell
