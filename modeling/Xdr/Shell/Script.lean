import Xdr.Text.Raw

/-!
# Scripts

What a shell script consists of.

## Design Notes

A part knows whether it stands in quotes, since what is in quotes is neither
divided into fields nor matched against names. The text of a here-document
follows the line that asks for it, so a redirection refers to it by number.
-/

namespace Xdr.Shell

open Text (Raw)

inductive Change where
  /-- Another word if there is no value. -/
  | orElse
  /-- Another word if there is no value, which becomes the value. -/
  | assign
  /-- A complaint if there is no value. -/
  | complain
  /-- Another word if there is a value. -/
  | instead
  /-- Without the beginning that matches a pattern. -/
  | trimFront
  /-- Without the end that matches a pattern. -/
  | trimBack
  deriving DecidableEq, Repr

inductive Access where
  | read
  | write
  | append
  | both
  deriving DecidableEq, Repr

mutual

inductive Part where
  | text (chars : Raw) (quoted : Bool)
  | param (name : Raw) (quoted : Bool)
  | length (name : Raw) (quoted : Bool)
  /-- A parameter with a change, which may be a full one: an empty value
  counts as none, and the longest match is taken. -/
  | changed (name : Raw) (change : Change) (full : Bool) (word : List Part) (quoted : Bool)
  | malformed
  | output (commands : List Command) (quoted : Bool)
  | number (expression : List Part) (quoted : Bool)

/-- Where a command reads or writes instead, by the number of a descriptor. -/
inductive Redirection where
  | file (fd : Nat) (access : Access) (path : List Part)
  | duplicate (fd : Nat) (source : List Part)
  | document (fd : Nat) (number : Nat)

inductive Command where
  /-- Assignments, words and redirections, on a line. -/
  | simple (line : Nat) (assignments : List (Raw × List Part)) (words : List (List Part))
      (redirections : List Redirection)
  /-- Commands of which each reads what the one before it writes. -/
  | pipe (negated : Bool) (commands : List Command)
  /-- The second command only if the first one succeeds. -/
  | both (first second : Command)
  /-- The second command only if the first one fails. -/
  | either (first second : Command)
  /-- Commands in order. -/
  | group (commands : List Command)
  /-- Commands in order, in a shell of their own. -/
  | subshell (line : Nat) (commands : List Command)
  /-- A command that is not waited for. -/
  | background (command : Command)
  | redirected (line : Nat) (command : Command) (redirections : List Redirection)
  | choice (condition body : List Command) (otherwise : List Command)
  /-- A body that is repeated as long as the condition succeeds, or as long
  as it fails. -/
  | loop (negated : Bool) (condition body : List Command)
  | each (line : Nat) (name : Raw) (words : Option (List (List Part))) (body : List Command)
  | cases (line : Nat) (subject : List Part) (branches :
    List (List (List Part) × List Command))
  | define (line : Nat) (name : Raw) (body : Command)

end

end Xdr.Shell
