import Xdr.Text.Numeral
import Xdr.Tool.Basic

/-!
# Formats

Words in the places that a format has for them.

## Design Notes

A format is used again as long as there are words left, if it takes any. A
place for which there is no word left takes the empty word or zero.
-/

namespace Xdr.Tool

open Text (Raw)

structure Conversion where
  flags : List Char
  width : Nat
  precision : Option Nat
  letter : Char
  deriving DecidableEq, Repr

namespace Conversion

def fill (conversion : Conversion) (text : Raw) : Raw :=
  let missing := List.replicate (conversion.width - text.length) ' '
  if conversion.flags.contains '-' then text ++ missing else missing ++ text

def text (conversion : Conversion) (word : Raw) : Raw :=
  conversion.fill (match conversion.precision with
    | some size => word.take size
    | none => word)

def digits (conversion : Conversion) (n : Nat) : Raw :=
  let base := match conversion.letter with
    | 'o' => 8
    | 'x' | 'X' => 16
    | _ => 10
  let shown := if n = 0 && conversion.precision == some 0 then [] else Nat.toDigits base n
  let shown := if conversion.letter == 'X' then shown.map Char.toUpper else shown
  let shown := List.replicate (conversion.precision.getD 0 - shown.length) '0' ++ shown
  if conversion.letter == 'o' && conversion.flags.contains '#' && shown.head? != some '0' then
    '0' :: shown
  else shown

def isSigned (conversion : Conversion) : Bool :=
  conversion.letter == 'd' || conversion.letter == 'i'

def sign (conversion : Conversion) (n : Int) : Raw :=
  let has (flag : Char) : Bool := conversion.flags.contains flag
  if conversion.isSigned then
    if n < 0 then ['-'] else if has '+' then ['+'] else if has ' ' then [' '] else []
  else if has '#' && n ≠ 0 && (conversion.letter == 'x' || conversion.letter == 'X') then
    ['0', conversion.letter]
  else []

def number (conversion : Conversion) (n : Int) : Raw :=
  let front := conversion.sign n
  let digits := conversion.digits n.natAbs
  let zeros :=
    if conversion.flags.contains '0' && !conversion.flags.contains '-' &&
      conversion.precision.isNone then
      List.replicate (conversion.width - front.length - digits.length) '0'
    else []
  conversion.fill (front ++ zeros ++ digits)

end Conversion

inductive Escape where
  /-- A text, and what follows it. -/
  | shows (text rest : Raw)
  /-- The end of all output. -/
  | ends
  /-- Something wrong. -/
  | refused (reason : String)
  deriving DecidableEq, Repr

/-- The character that up to three octal digits at the beginning of a text
stand for, and what follows. -/
def octalEscaped (cs : Raw) : Escape :=
  let digits := Text.digitsAt 8 (cs.take 3)
  .shows [Char.ofNat (Text.ofDigits 8 digits % 256)] (cs.drop digits.length)

def letterEscape? (c : Char) : Option Char :=
  match c with
  | 'a' => some '\x07'
  | 'b' => some '\x08'
  | 'f' => some '\x0c'
  | 'n' => some '\n'
  | 'r' => some '\r'
  | 't' => some '\t'
  | 'v' => some '\x0b'
  | '\x5c' => some '\x5c'
  | _ => none

/-- A text with its escapes read by a rule: what it shows, and why it ends
early. Each step reads a character, so their number is enough. -/
def unescapeSteps (rule : Raw → Escape) : Nat → Raw → Raw × Option (Option String)
  | 0, _ => ([], none)
  | _ + 1, [] => ([], none)
  | steps + 1, c :: cs =>
    if c != '\x5c' then
      let (more, stopped) := unescapeSteps rule steps cs
      (c :: more, stopped)
    else
      match rule cs with
      | .shows text rest =>
        let (more, stopped) := unescapeSteps rule steps rest
        (text ++ more, stopped)
      | .ends => ([], some none)
      | .refused reason => ([], some (some reason))

/-- A text with its escapes read by a rule: what it shows, and why it ends
early. -/
def unescaped (rule : Raw → Escape) (text : Raw) : Raw × Option (Option String) :=
  unescapeSteps rule text.length text

structure FormatRules where
  /-- The escapes of a format. -/
  escape : Raw → Escape
  /-- The escapes of a word that has them. -/
  wordEscape : Raw → Escape
  /-- How a complaint shows a word. -/
  shown : Raw → Raw
  notNumber : String
  notWhole : String
  badConversion : String
  /-- The complaint about a conversion without a letter, if it has one of
  its own. -/
  noLetter : Option String
  /-- The letters that may stand in front of the one of a conversion. -/
  sizes : List Char

structure Draft where
  /-- What was written, the last character first. -/
  written : Raw
  /-- The words that are left. -/
  words : List Raw
  /-- What is wrong with words, the last complaint first. -/
  complaints : List Raw
  /-- Why writing ended: it was told to, or the format is wrong. -/
  stopped : Option (Option Raw)

namespace Draft

def write (draft : Draft) (text : Raw) : Draft :=
  { draft with written := text.reverse ++ draft.written }

def refuse (draft : Draft) (reason : Raw) : Draft :=
  { draft with stopped := some (some reason) }

def next (draft : Draft) : Raw × Draft :=
  match draft.words with
  | [] => ([], draft)
  | word :: words => (word, { draft with words := words })

end Draft

namespace FormatRules

/-- A number brought into the range of a conversion, and whether it was
there. -/
def bounded (signed : Bool) (n : Int) : Int × Bool :=
  if signed then (Text.saturate n, Text.saturate n == n)
  else if 0x10000000000000000 ≤ n.natAbs then (0xffffffffffffffff, false)
  else (n % 0x10000000000000000, true)

def nextNumber (rules : FormatRules) (draft : Draft) (signed : Bool) : Int × Draft :=
  match draft.words with
  | [] => (0, draft)
  | word :: words =>
    let draft := { draft with words := words }
    let note (text : String) : Draft :=
      { draft with
        complaints := (rules.shown word ++ Text.raw (": " ++ text)) :: draft.complaints }
    match word with
    | '\x27' :: rest => ((rest.head?.getD '\x00').toNat, draft)
    | '\x22' :: rest => ((rest.head?.getD '\x00').toNat, draft)
    | _ =>
      match Text.readInteger word with
      | some (n, rest) =>
        let (n, fits) := bounded signed n
        if !rest.isEmpty then (n, note rules.notWhole)
        else if !fits then (n, note "Numerical result out of range")
        else (n, draft)
      | none => (0, if word.isEmpty then draft else note rules.notNumber)

/-- A number in a format, or the next word as one if a star stands there;
what follows it. -/
def size (rules : FormatRules) (draft : Draft) (cs : Raw) : Option Int × Draft × Raw :=
  match cs with
  | '*' :: rest =>
    let (n, draft) := rules.nextNumber draft true
    (some n, draft, rest)
  | _ =>
    let digits := cs.takeWhile Char.isDigit
    (if digits.isEmpty then none
      else some (Text.decimal digits), draft, cs.drop digits.length)

/-- A conversion after its sign, and what follows it; nothing if it has no
letter. -/
def conversion (rules : FormatRules) (draft : Draft) (cs : Raw) :
    Option (Conversion × Draft × Raw) :=
  let flags := cs.takeWhile fun c => "#-+ 0".toList.contains c
  let (width, draft, rest) := rules.size draft (cs.drop flags.length)
  let width := width.getD 0
  let (precision, draft, rest) : Option Int × Draft × Raw := match rest with
    | '.' :: rest =>
      let (size, draft, rest) := rules.size draft rest
      (some (size.getD 0), draft, rest)
    | rest => (none, draft, rest)
  let flags := if width < 0 then '-' :: flags else flags
  let precision := match precision with
    | some size => if size < 0 then none else some size.toNat
    | none => none
  match rest.dropWhile rules.sizes.contains with
  | [] => none
  | letter :: rest => some (⟨flags, width.natAbs, precision, letter⟩, draft, rest)

/-- Writes the next word as a conversion tells; its text in the format is
given for complaints. -/
def convert (rules : FormatRules) (draft : Draft) (conversion : Conversion)
    (shown : Raw) : Draft :=
  match conversion.letter with
  | 'b' =>
    let (word, draft) := draft.next
    let (text, stopped) := unescaped rules.wordEscape word
    let draft := draft.write (conversion.text text)
    { draft with stopped := stopped.map (·.map Text.raw) }
  | 'c' =>
    let (word, draft) := draft.next
    draft.write (conversion.fill [word.head?.getD '\x00'])
  | 's' =>
    let (word, draft) := draft.next
    draft.write (conversion.text word)
  | letter =>
    if "diouxX".toList.contains letter then
      let (n, draft) := rules.nextNumber draft conversion.isSigned
      draft.write (conversion.number n)
    else draft.refuse (shown ++ Text.raw (": " ++ rules.badConversion))

/-- Goes once through a format. Each step reads a character, so their number
is enough. -/
def once (rules : FormatRules) : Nat → Draft → Raw → Draft
  | 0, draft, _ => draft
  | _ + 1, draft, [] => draft
  | steps + 1, draft, c :: cs =>
    if draft.stopped.isSome then draft
    else if c == '\x5c' then
      match rules.escape cs with
      | .shows text rest => rules.once steps (draft.write text) rest
      | .ends => { draft with stopped := some none }
      | .refused reason => draft.refuse (Text.raw reason)
    else if c != '%' then rules.once steps (draft.write [c]) cs
    else
      match cs with
      | '%' :: rest => rules.once steps (draft.write ['%']) rest
      | _ =>
        match rules.conversion draft cs with
        | none =>
          draft.refuse (match rules.noLetter with
            | some reason => Text.raw reason
            | none => c :: cs ++ Text.raw (": " ++ rules.badConversion))
        | some (conversion, draft, rest) =>
          rules.once steps
            (rules.convert draft conversion (c :: cs.take (cs.length - rest.length))) rest

/-- Goes through a format as long as there are words left. Each time takes a
word, so their number is enough. -/
def rounds (rules : FormatRules) (format : Raw) : Nat → Draft → Draft
  | 0, draft => draft
  | count + 1, draft =>
    let after := rules.once (format.length + 1) draft format
    if after.stopped.isSome || after.words.isEmpty ||
      after.words.length == draft.words.length then after
    else rules.rounds format count after

def apply (rules : FormatRules) (format : Raw) (words : List Raw) : Draft :=
  rules.rounds format (words.length + 1) ⟨[], words, [], none⟩

end FormatRules
end Xdr.Tool
