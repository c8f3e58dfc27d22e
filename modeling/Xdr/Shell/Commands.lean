import Xdr.Shell.Evaluation

/-!
# Commands for trying things out

Some commands, the shell among them, that work on the files of a host. They
stand in for the programs of a system where a filter is to be run without
one.

## Design Notes

Nothing is known of other commands: they are not found. What is proved about
filters holds for any way of starting commands and does not refer to this
one.
-/

namespace Xdr.Shell

def wordLimit : Nat := 131072

def pipeCapacity : Nat := 65536

/-- What is wrong with the words of a command, before it is looked for and
after it was found. -/
def wordFault? (words : List String) (found : Bool) : Option HostError :=
  if !found then
    if words.any fun word => word.toList.contains '\x00' then some .nullInWord else none
  else if words.any fun word => wordLimit ≤ word.utf8ByteSize then some .tooManyWords
  else none

/-- The command that left something behind, as the one who started it sees
it. -/
def processOf (outcome : Tool.Outcome) : Process where
  ending := outcome.ending
  output := Text.rawBytes (outcome.on .output)
  errors := Text.rawBytes (outcome.on .errors)
  written := if pipeCapacity < outcome.unread.length then .error .brokenPipe else .ok ()

section

variable {m : Type → Type} [Monad m]

def programNamed? (host : Host m) (name : String) : Option (Tool.Program m) :=
  if name == "sh" then some (program host) else Tool.program? host name

def programOf (host : Host m) (command : String) (args : List String) :
    m (Except HostError (Tool.Program m)) := do
  match wordFault? (command :: args) false with
  | some error => return .error error
  | none =>
    match ← Tool.locate host command with
    | .error error => return .error error
    | .ok name =>
      match wordFault? (command :: args) true, programNamed? host name with
      | some error, _ => return .error error
      | none, some program => return .ok program
      | none, none => return .error .notFound

def commands (host : Host m) : Commands m := fun command args input => do
  match ← programOf host command args with
  | .error error => return .error error
  | .ok program =>
    let outcome ← program (Text.raw command) (args.map Text.raw) (Text.rawOfBytes input)
    return .ok (processOf outcome)

end

end Xdr.Shell
