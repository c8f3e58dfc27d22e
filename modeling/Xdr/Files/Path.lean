import Xdr.Text.Utf8

/-!
# Paths

Paths of files: steps from a directory, divided by slashes.
-/

namespace Xdr

/-- A path. None of its steps is empty. -/
structure Path where
  rooted : Bool
  steps : List String
  slash : Bool
  deriving DecidableEq, Repr

namespace Path

/-- A path has fewer bytes than this. -/
def limit : Nat := 4096

/-- A step has at most so many bytes. -/
def stepLimit : Nat := 255

/-- The parts of a text between slashes. -/
def parts : List Char → List (List Char)
  | [] => [[]]
  | c :: cs =>
    match parts cs with
    | [] => [[c]]
    | part :: rest => if c = '/' then [] :: part :: rest else (c :: part) :: rest

/-- The path with the given text. -/
def ofString (text : String) : Path :=
  let cs := text.toList
  { rooted := cs.head? == some '/'
    steps := ((parts cs).filter fun part => !part.isEmpty).map String.ofList
    slash := cs.getLast? == some '/' }

/-- The text of some steps. -/
def join (steps : List String) : String :=
  "/".intercalate steps

/-- The place after one more step: a dot stays, two dots go up, and a name
goes down. -/
def stepFrom (place : List String) (step : String) : List String :=
  if step == "." then place else if step == ".." then place.dropLast else place ++ [step]

/-- The steps from the root to where a path leads, if it starts there. -/
def fromRoot (path : Path) : Option (List String) :=
  if path.rooted then some (path.steps.foldl stepFrom []) else none

/-- The number with the given digits. -/
def number? (text : String) : Option Nat :=
  if text.isEmpty || !text.toList.all Char.isDigit then none
  else some (text.toList.foldl (fun n c => n * 10 + (c.toNat - 48)) 0)

/-- The open stream that a path names by its number: those of a process have
paths of their own. -/
def streamNumber? (path : Path) : Option Nat :=
  if path.slash then none
  else
    match path.fromRoot with
    | some ["dev", "stdin"] => some 0
    | some ["dev", "stdout"] => some 1
    | some ["dev", "stderr"] => some 2
    | some ["dev", "fd", number] => number? number
    | some ["proc", "self", "fd", number] => number? number
    | _ => none

end Path
end Xdr
