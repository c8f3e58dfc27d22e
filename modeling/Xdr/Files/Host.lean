import Xdr.Files.Basic

/-!
# Hosts

Where a command reads and writes, and what becomes of the commands that it
starts.

## Design Notes

A command that is started is not a part of this development: it may be any
program, and may do anything to the files. So starting commands is a
parameter of everything that does it, and tells no more of a command than
the one who started it sees: how it ended, what it wrote, and whether it
took its input.
-/

namespace Xdr

/-- Where a command reads and writes: its standard input, and files by their
paths. -/
structure Host (m : Type → Type) where
  input : m (List UInt8)
  read : String → m (Except HostError (List UInt8))
  write : String → List UInt8 → m (Except HostError Unit)
  /-- The names in the directory of the command. -/
  names : m (List String)

namespace Host

/-- The host with the given input whose files are the state. -/
def ofFiles (input : List UInt8) : Host (StateM Files) where
  input := return input
  read := fun path files => (files.read path, files)
  write := fun path bytes files =>
    match files.write path bytes with
    | .ok after => (.ok (), after)
    | .error error => (.error error, files)
  names := fun files => (files.names, files)

end Host

/-- How a command ended: with a status, or by a signal. -/
inductive Ending where
  | exited (status : Nat)
  | killed (signal : Nat)
  deriving DecidableEq, Repr

namespace Ending

/-- Whether a command ended well. -/
def isSuccess (ending : Ending) : Bool :=
  ending == .exited 0

/-- How a command ended as one number: the status above the lowest byte, and
a signal in it. -/
def code : Ending → Nat
  | .exited status => status * 256
  | .killed signal => signal

end Ending

/-- A command that was started and has ended. -/
structure Process where
  ending : Ending
  output : List UInt8
  errors : List UInt8
  /-- Whether the command was handed its whole input, or why it was not. -/
  written : Except HostError Unit

/-- Starting commands: what becomes of one with a name, arguments and an
input, unless it cannot be started. -/
abbrev Commands (m : Type → Type) :=
  String → List String → List UInt8 → m (Except HostError Process)

end Xdr
