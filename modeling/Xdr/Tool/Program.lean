import Xdr.Tool.Copy
import Xdr.Tool.Print
import Xdr.Tool.Replace

/-!
# Programs

The tools that a host keeps, and how one is found by the word that names it.

## Design Notes

A word without a slash is looked for in the directories of programs. Any
other word is a path, which leads to a program only there. What stands
elsewhere may be read but not started.
-/

namespace Xdr.Tool

open Text (Raw)

section

variable {m : Type → Type} [Monad m]

/-- A tool: what it leaves behind, given the word it was called by, its
arguments and its input. -/
abbrev Program (m : Type → Type) := Raw → List Raw → Raw → m Outcome

/-- A program whose file a path names, if it names one by its place. -/
def programAt? (path : Path) : Option String :=
  match path.fromRoot with
  | some place =>
    if Files.systemNode? place == some .program && !path.slash then place.getLast? else none
  | none => none

def locate (host : Host m) (command : String) : m (Except HostError String) := do
  if command.toList.contains '/' then
    match programAt? (.ofString command) with
    | some name => return .ok name
    | none =>
      match ← host.read command with
      | .ok _ => return .error .denied
      | .error .isDirectory => return .error .denied
      | .error error => return .error error
  else if Files.programs.contains command then return .ok command
  else if command == "." || command == ".." then return .error .denied
  else if Path.stepLimit < command.utf8ByteSize then return .error .nameTooLong
  else return .error .notFound

def program? (host : Host m) (name : String) : Option (Program m) :=
  match name with
  | "cat" => some (copy host)
  | "tr" => some fun called args input => return replace called args input
  | "echo" => some fun _ args input => return printWords args input
  | "printf" => some fun called args input => return printFormat called args input
  | "true" => some fun _ _ input => return ⟨[], input, .exited 0⟩
  | "false" => some fun _ _ input => return ⟨[], input, .exited 1⟩
  | _ => none

end

end Xdr.Tool
