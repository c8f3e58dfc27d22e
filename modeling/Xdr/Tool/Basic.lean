import Xdr.Files.Host
import Xdr.Text.Raw

/-!
# Tools

Programs that turn a stream into another one: what they leave behind, how
they quote what they complain about, and how they read the options in front
of their operands.

## Design Notes

An option is a letter after a dash, where several letters may stand
together, or a name after two dashes, which may be cut short as long as it
fits one option only. Two dashes alone end the options. Some tools take
options also between and after their operands.
-/

namespace Xdr.Tool

open Text (Raw)

inductive Channel where
  | output
  | errors
  deriving DecidableEq, Repr

/-- What a tool leaves behind: what it wrote, in order, its unread input,
and how it ended. -/
structure Outcome where
  writes : List (Channel × Raw)
  unread : Raw
  ending : Ending
  deriving DecidableEq, Repr

/-- What a tool complains about, and whether it goes on to hint at its help.
-/
structure Complaint where
  text : Raw
  hinted : Bool
  deriving DecidableEq, Repr

def Complaint.shown (complaint : Complaint) (called : Raw) : Raw :=
  called ++ Text.raw ": " ++ complaint.text ++ ['\n'] ++
    if complaint.hinted then
      Text.raw "Try '" ++ called ++ Text.raw " --help' for more information.\n" else []

namespace Outcome

/-- The outcome of a tool that read all its input and wrote some output. -/
def wrote (output : Raw) : Outcome :=
  ⟨[(.output, output)], [], .exited 0⟩

def complained (complaints input : Raw) : Outcome :=
  ⟨[(.errors, complaints)], input, .exited 1⟩

def on (channel : Channel) (outcome : Outcome) : Raw :=
  (outcome.writes.filter fun write => write.1 == channel).flatMap (·.2)

end Outcome

def isShown (c : Char) : Bool :=
  ' ' ≤ c && c ≤ '~'

/-- The letter that stands for a character after a backslash, if there is
one. -/
def escapeLetter? (c : Char) : Option Char :=
  match c.toNat with
  | 7 => some 'a'
  | 8 => some 'b'
  | 9 => some 't'
  | 10 => some 'n'
  | 11 => some 'v'
  | 12 => some 'f'
  | 13 => some 'r'
  | _ => none

def octalDigits (c : Char) : Raw :=
  let n := c.toNat
  [Nat.digitChar (n / 64 % 8), Nat.digitChar (n / 8 % 8), Nat.digitChar (n % 8)]

def shownChar (c : Char) : Raw :=
  match escapeLetter? c with
  | some letter => ['\x5c', letter]
  | none =>
    if c == '\x5c' then ['\x5c', '\x5c'] else if isShown c then [c]
      else '\x5c' :: octalDigits c

def quoted (word : Raw) : Raw :=
  let inside := word.flatMap fun c => if c == '\x27' then ['\x5c', '\x27'] else shownChar c
  ['\x27'] ++ inside ++ ['\x27']

/-- A character that a name is quoted for, given whether it is the first one
and whether it is the only one. -/
def isSpecial (first only : Bool) (c : Char) : Bool :=
  if c == '#' || c == '~' then first
  else if c == '\x7b' || c == '\x7d' then only
  else " !\x22$&'()*;<=>?[\\^`|".toList.contains c

/-- A stretch of a name that cannot be shown, between quotes of its own and
with escapes that the shell reads, after the quote that ends what is in
front of it. -/
def unshown (run : Raw) : Raw :=
  let inside := run.flatMap fun c =>
    match escapeLetter? c with
    | some letter => ['\x5c', letter]
    | none => '\x5c' :: octalDigits c
  ['\x27', '$', '\x27'] ++ inside ++ ['\x27']

/-- The rest of a quoted name with the quote that ends it, given the stretch
of characters that cannot be shown in front of it. -/
def quoteName (run : Raw) : Raw → Raw
  | [] => if run.isEmpty then ['\x27'] else unshown run
  | c :: cs =>
    if isShown c then
      let before := if run.isEmpty then [] else unshown run ++ ['\x27']
      let shown := if c == '\x27' then "'\\''".toList else [c]
      before ++ shown ++ quoteName [] cs
    else quoteName (run ++ [c]) cs

def needsQuotes : Raw → Bool
  | [] => true
  | c :: cs =>
    isSpecial true cs.isEmpty c || !isShown c || cs.any fun d =>
      isSpecial false false d || !isShown d

/-- The name of a file as a complaint shows it: between quotes only if it
has to be. -/
def quotedName (name : Raw) : Raw :=
  if !needsQuotes name then name
  else if name.contains '\x27' && !name.any (fun c =>
    "\x22$`\\".toList.contains c || !isShown c) then
    ['\x22'] ++ name ++ ['\x22']
  else '\x27' :: quoteName [] name

/-- The options that a tool has: letters, and long names that stand for
letters. -/
structure Usage where
  letters : List Char
  longNames : List (String × Char)
  /-- Whether options may stand after operands. -/
  anywhere : Bool

namespace Usage

/-- A complaint about a word, after which the tool hints at its help. -/
def misuse (text : Raw) : Complaint :=
  ⟨text, true⟩

/-- The long options that a name fits: the one that bears it, or else those
that begin with it. -/
def fitting (usage : Usage) (name : Raw) : List (String × Char) :=
  match usage.longNames.filter fun option => option.1.toList == name with
  | [] => usage.longNames.filter fun option => name.isPrefixOf option.1.toList
  | exact => exact

def longLetter (usage : Usage) (word : Raw) : Except Complaint Char :=
  let name := word.takeWhile (· != '=')
  let value := word.dropWhile (· != '=')
  match usage.fitting name with
  | [] => .error (misuse (Text.raw "unrecognized option '--" ++ word ++ ['\x27']))
  | [(option, letter)] =>
    if value.isEmpty then .ok letter
    else .error (misuse (Text.raw s!"option '--{option}' doesn't allow an argument"))
  | several =>
    let possible := String.join (several.map fun option => s!" '--{option.1}'")
    .error (misuse
      (Text.raw "option '--" ++ word ++
        Text.raw ("' is ambiguous; possibilities:" ++ possible)))

/-- Divides words into the letters of the options and the operands, or
complains. -/
def read (usage : Usage) : List Raw → Except Complaint (List Char × List Raw)
  | [] => .ok ([], [])
  | word :: words =>
    match word with
    | ['-', '-'] => .ok ([], words)
    | '-' :: '-' :: name => do
      let letter ← usage.longLetter name
      let (letters, operands) ← usage.read words
      return (letter :: letters, operands)
    | '-' :: c :: cs =>
      match (c :: cs).find? fun letter => !usage.letters.contains letter with
      | some letter =>
        .error (misuse (Text.raw "invalid option -- '" ++ [letter] ++ ['\x27']))
      | none => do
        let (letters, operands) ← usage.read words
        return (c :: cs ++ letters, operands)
    | _ =>
      if usage.anywhere then do
        let (letters, operands) ← usage.read words
        return (letters, word :: operands)
      else .ok ([], word :: words)

end Usage
end Xdr.Tool
