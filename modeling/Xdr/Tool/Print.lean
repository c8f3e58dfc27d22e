import Xdr.Tool.Format

/-!
# Printing

The programs that write their words and read nothing.
-/

namespace Xdr.Tool

open Text (Raw)

def lineEscape (cs : Raw) : Escape :=
  match cs with
  | [] => .shows ['\x5c'] []
  | 'c' :: _ => .ends
  | 'e' :: rest => .shows ['\x1b'] rest
  | '0' :: rest => octalEscaped rest
  | 'x' :: rest =>
    let digits := Text.digitsAt 16 (rest.take 2)
    if digits.isEmpty then .shows ['\x5c', 'x'] rest
    else .shows [Char.ofNat (Text.ofDigits 16 digits)] (rest.drop digits.length)
  | c :: rest =>
    match letterEscape? c with
    | some shown => .shows [shown] rest
    | none => if Text.digitValue c < 8 then octalEscaped cs else .shows ['\x5c', c] rest

/-- Whether a word is an option of a program that writes its words. -/
def isLineOption (word : Raw) : Bool :=
  match word with
  | '-' :: c :: cs => (c :: cs).all "neE".toList.contains
  | _ => false

/-- Writes words in a line, which may lack its end. Escapes are read only if
an option asks for it. -/
def printWords (args : List Raw) (input : Raw) : Outcome :=
  let options := args.takeWhile isLineOption
  let letters := options.flatMap fun word => word.drop 1
  let words := [' '].intercalate (args.drop options.length)
  let escapes := (letters.filter (· != 'n')).getLast? == some 'e'
  let (text, stopped) := if escapes then unescaped lineEscape words else (words, none)
  let last := if letters.contains 'n' || stopped.isSome then [] else ['\n']
  ⟨[(.output, text ++ last)], input, .exited 0⟩

def formatEscape (cs : Raw) : Escape :=
  match cs with
  | '0' :: _ => octalEscaped cs
  | '\x22' :: rest => .shows ['\x22'] rest
  | 'x' :: rest =>
    if (Text.digitsAt 16 (rest.take 2)).isEmpty then
      .refused "missing hexadecimal number in escape"
    else lineEscape cs
  | _ => lineEscape cs

def wordEscape (cs : Raw) : Escape :=
  match cs with
  | '0' :: rest => octalEscaped rest
  | _ => formatEscape cs

def printRules : FormatRules where
  escape := formatEscape
  wordEscape := wordEscape
  shown := quoted
  notNumber := "expected a numeric value"
  notWhole := "value not completely converted"
  badConversion := "invalid conversion specification"
  noLetter := none
  sizes := "hlLjzt".toList

def printFormat (called : Raw) (args : List Raw) (input : Raw) : Outcome :=
  let complain (text : Raw) (hinted : Bool) : Raw := (Complaint.mk text hinted).shown called
  let args := match args with
    | ['-', '-'] :: rest => rest
    | _ => args
  match args with
  | [] => .complained (complain (Text.raw "missing operand") true) input
  | format :: words =>
    let draft := printRules.apply format words
    let notes := draft.complaints.reverse.flatMap (complain · false)
    let status := if notes.isEmpty then 0 else 1
    match draft.stopped, draft.words with
    | some (some fault), _ =>
      ⟨[(.errors, notes ++ complain fault false), (.output, draft.written.reverse)],
        input, .exited 1⟩
    | none, word :: _ =>
      let warning :=
        Text.raw "warning: ignoring excess arguments, starting with " ++ quoted word
      ⟨[(.errors, notes ++ complain warning false), (.output, draft.written.reverse)], input,
        .exited status⟩
    | _, _ => ⟨[(.errors, notes), (.output, draft.written.reverse)], input, .exited status⟩

end Xdr.Tool
