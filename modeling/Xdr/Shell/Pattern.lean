import Xdr.Text.Raw

/-!
# Patterns

Patterns that a text as a whole can match: a star stands for any text, a
question mark for any character, and brackets for one character of a set.
-/

namespace Xdr.Shell

open Text (Raw)

inductive Glob where
  | any
  | one
  | char (c : Char)
  | oneOf (negated : Bool) (ranges : List (Char × Char))
  deriving DecidableEq, Repr

abbrev PatternChar := Char × Bool

namespace Glob

def classRanges? (name : String) : Option (List (Char × Char)) :=
  match name with
  | "alnum" => some [('0', '9'), ('A', 'Z'), ('a', 'z')]
  | "alpha" => some [('A', 'Z'), ('a', 'z')]
  | "blank" => some [(' ', ' '), ('\t', '\t')]
  | "cntrl" => some [('\x00', '\x1f'), ('\x7f', '\x7f')]
  | "digit" => some [('0', '9')]
  | "graph" => some [('!', '~')]
  | "lower" => some [('a', 'z')]
  | "print" => some [(' ', '~')]
  | "punct" => some [('!', '/'), (':', '@'), ('[', '\x60'), ('\x7b', '~')]
  | "space" => some [('\t', '\r'), (' ', ' ')]
  | "upper" => some [('A', 'Z')]
  | "xdigit" => some [('0', '9'), ('A', 'F'), ('a', 'f')]
  | _ => none

/-- A class at the beginning of what stands in brackets, and what follows
it. -/
def classAt? (cs : List PatternChar) : Option (List (Char × Char) × List PatternChar) :=
  match cs with
  | ('[', false) :: (':', _) :: rest =>
    let name := (rest.takeWhile fun c => c.1 != ':').map (·.1)
    match rest.drop name.length with
    | (':', _) :: (']', _) :: after => (classRanges? (String.ofList name)).map (·, after)
    | _ => none
  | _ => none

/-- The ranges in brackets and what follows the closing one, if there is
one. It does not close right at the beginning. Each step reads a character,
so their number is enough. -/
def ranges? : Nat → Bool → List PatternChar → Option (List (Char × Char) × List PatternChar)
  | 0, _, _ => none
  | _ + 1, _, [] => none
  | steps + 1, isFirst, c :: cs =>
    if c == (']', false) && !isFirst then some ([], cs)
    else
      match classAt? (c :: cs) with
      | some (ranges, after) =>
        (ranges? steps false after).map fun (more, rest) => (ranges ++ more, rest)
      | none =>
        let (low, cs) := match c, cs with
          | ('\x5c', false), d :: rest => (d.1, rest)
          | c, cs => (c.1, cs)
        match cs with
        | ('-', false) :: d :: rest =>
          if d == (']', false) then
            (ranges? steps false cs).map fun (more, rest) => ((low, low) :: more, rest)
          else
            let (high, rest) := match d, rest with
              | ('\x5c', false), e :: rest => (e.1, rest)
              | d, rest => (d.1, rest)
            (ranges? steps false rest).map fun (more, rest) => ((low, high) :: more, rest)
        | cs => (ranges? steps false cs).map fun (more, rest) => ((low, low) :: more, rest)

/-- A set in brackets, after the first of them, and what follows it. -/
def bracket? (cs : List PatternChar) : Option (Glob × List PatternChar) :=
  match cs with
  | ('!', false) :: rest =>
    (ranges? (rest.length + 1) true rest).map fun (ranges, after) =>
      (.oneOf true ranges, after)
  | _ =>
    (ranges? (cs.length + 1) true cs).map fun (ranges, after) => (.oneOf false ranges, after)

/-- The parts of a pattern. Each step reads a character, so their number is
enough. -/
def parseSteps : Nat → List PatternChar → List Glob
  | 0, _ => []
  | _ + 1, [] => []
  | steps + 1, (c, literal) :: cs =>
    if literal then .char c :: parseSteps steps cs
    else if c == '*' then .any :: parseSteps steps cs
    else if c == '?' then .one :: parseSteps steps cs
    else if c == '[' then
      match bracket? cs with
      | some (glob, rest) => glob :: parseSteps steps rest
      | none => .char c :: parseSteps steps cs
    else if c == '\x5c' then
      match cs with
      | (d, _) :: rest => .char d :: parseSteps steps rest
      | [] => [.char c]
    else .char c :: parseSteps steps cs

def parse (cs : List PatternChar) : List Glob :=
  parseSteps cs.length cs

def admits : Glob → Char → Bool
  | .any, _ => true
  | .one, _ => true
  | .char c, d => c == d
  | .oneOf negated ranges, d => negated != ranges.any fun range => range.1 ≤ d && d ≤ range.2

def tails : Raw → List Raw
  | [] => [[]]
  | c :: cs => (c :: cs) :: tails cs

def fits : List Glob → Raw → Bool
  | [], text => text.isEmpty
  | .any :: globs, text => (tails text).any (fits globs)
  | glob :: globs, text =>
    match text with
    | [] => false
    | c :: cs => glob.admits c && fits globs cs

def trimFront (longest : Bool) (globs : List Glob) (text : Raw) : Raw :=
  let sizes := List.range (text.length + 1)
  let sizes := if longest then sizes.reverse else sizes
  match sizes.find? fun size => fits globs (text.take size) with
  | some size => text.drop size
  | none => text

def trimBack (longest : Bool) (globs : List Glob) (text : Raw) : Raw :=
  let sizes := List.range (text.length + 1)
  let sizes := if longest then sizes else sizes.reverse
  match sizes.find? fun size => fits globs (text.drop size) with
  | some size => text.take size
  | none => text

def isOpen (globs : List Glob) : Bool :=
  globs.any fun
    | .char _ => false
    | _ => true

end Glob
end Xdr.Shell
