import Xdr.Files.Error
import Xdr.Files.Path
import Xdr.Table

/-!
# Files

The files that a command finds, and what becomes of them.

## Design Notes

A path is followed step by step. Each step but the last leads to a
directory: a dot stays there, two dots go up, and the root is above itself.
There is a directory wherever there is a file below it. Outside the
directory of the command there are only the usual directories of a system,
its devices and its programs.

A slash at the end of a path asks for a directory. A file that is to be
written is none, so such a path is refused before anything is looked up
under its last name.
-/

namespace Xdr

/-- The files below a directory, by their paths, whose steps a slash
divides. -/
abbrev Files := Table (List UInt8)

/-- A device. -/
inductive Device where
  /-- Empty, and keeps nothing. -/
  | null
  /-- Never takes anything. -/
  | full
  /-- Not there for a command that nobody sits in front of. -/
  | terminal
  /-- An open stream of the command. -/
  | stream (number : Nat)
  deriving DecidableEq, Repr

/-- What stands at a place of the tree. -/
inductive Node where
  | directory
  | file (path : String)
  | device (device : Device)
  | program
  deriving DecidableEq, Repr

namespace Files

/-- The steps from the root to the directory in which the command runs. -/
def workPlace : List String := ["tmp", "work"]

/-- The usual directories of a system. -/
def systemDirectories : List (List String) :=
  [[], ["bin"], ["boot"], ["dev"], ["dev", "fd"], ["dev", "pts"], ["dev", "shm"], ["etc"],
   ["home"], ["lib"], ["lib64"], ["media"], ["mnt"], ["opt"], ["proc"], ["proc", "self"],
   ["proc", "self", "fd"], ["root"], ["run"], ["sbin"], ["srv"], ["sys"], ["tmp"], ["usr"],
   ["usr", "bin"], ["usr", "lib"], ["usr", "local"], ["usr", "local", "bin"], ["usr", "sbin"],
   ["usr", "share"], ["var"], ["var", "log"], ["var", "tmp"]]

/-- The programs that are found in their directories. -/
def programs : List String :=
  ["cat", "echo", "false", "printf", "sh", "tr", "true"]

/-- The directories that programs are kept in. -/
def programDirectories : List (List String) :=
  [["usr", "bin"], ["bin"]]

/-- What stands outside the directory of the command. -/
def systemNode? (place : List String) : Option Node :=
  if systemDirectories.contains place then some .directory
  else if programDirectories.contains place.dropLast &&
    programs.contains (place.getLastD "") then
    some .program
  else
    match place with
    | ["dev", "null"] | ["dev", "zero"] | ["dev", "random"] | ["dev", "urandom"] =>
      some (.device .null)
    | ["dev", "full"] => some (.device .full)
    | ["dev", "tty"] => some (.device .terminal)
    | _ =>
      match Path.streamNumber? ⟨true, place, false⟩ with
      | some number => if number ≤ 2 then some (.device (.stream number)) else none
      | none => none

/-- Whether there is a file below a path. -/
def isDirectory (files : Files) (path : String) : Bool :=
  files.any fun file => (path ++ "/").toList.isPrefixOf file.1.toList

/-- The steps below the directory of the command that lead to a place, if it
is there. -/
def below? (place : List String) : Option (List String) :=
  if workPlace.isPrefixOf place then some (place.drop workPlace.length) else none

/-- What stands at a place. -/
def node? (files : Files) (place : List String) : Option Node :=
  match below? place with
  | some [] => some .directory
  | some steps =>
    let path := Path.join steps
    if (files.find? path).isSome then some (.file path)
    else if files.isDirectory path then some .directory
    else none
  | none => systemNode? place

/-- What one step from a directory leads to, and where that is. -/
def enter (files : Files) (place : List String) (step : String) :
    Except HostError (List String × Node) :=
  let next := Path.stepFrom place step
  if step == "." || step == ".." then .ok (next, .directory)
  else if Path.stepLimit < step.utf8ByteSize then .error .nameTooLong
  else
    match files.node? next with
    | some node => .ok (next, node)
    | none => .error .notFound

/-- The directory that some steps from a directory lead to. -/
def walk (files : Files) (place : List String) : List String → Except HostError (List String)
  | [] => .ok place
  | step :: steps =>
    match files.enter place step with
    | .ok (next, .directory) => files.walk next steps
    | .ok _ => .error .notDirectory
    | .error error => .error error

/-- The place that a path starts from, if a path can have that text. -/
def start (text : String) : Except HostError (List String) :=
  if text.isEmpty then .error .notFound
  else if Path.limit ≤ text.utf8ByteSize then .error .nameTooLong
  else .ok (if (Path.ofString text).rooted then [] else workPlace)

/-- What a path leads to. -/
def find (files : Files) (text : String) : Except HostError Node := do
  let place ← start text
  let path := Path.ofString text
  match path.steps.getLast? with
  | none => return .directory
  | some last =>
    let (_, node) ← files.enter (← files.walk place path.steps.dropLast) last
    if path.slash && node != .directory then throw .notDirectory
    return node

/-- What is written under a path: a file, which may be new, or a device. -/
def target (files : Files) (text : String) : Except HostError Node := do
  let place ← start text
  let path := Path.ofString text
  match path.steps.getLast? with
  | none => throw .isDirectory
  | some last =>
    let parent ← files.walk place path.steps.dropLast
    if last == "." || last == ".." || path.slash then throw .isDirectory
    match files.enter parent last with
    | .ok (_, .directory) => throw .isDirectory
    | .ok (_, .program) => throw .denied
    | .ok (_, node) => return node
    | .error .notFound =>
      match below? (Path.stepFrom parent last) with
      | some steps => return .file (Path.join steps)
      | none => throw .denied
    | .error error => throw error

/-- The content of a program, which is no text. -/
def programContent : List UInt8 := [0x7f, 0x45, 0x4c, 0x46, 0xff]

/-- The content of a file. -/
def read (files : Files) (path : String) : Except HostError (List UInt8) :=
  match files.find path with
  | .ok .directory => .error .isDirectory
  | .ok (.file path) => .ok ((files.find? path).getD [])
  | .ok (.device .terminal) => .error .noDevice
  | .ok (.device _) => .ok []
  | .ok .program => .ok programContent
  | .error error => .error error

/-- The files among which one has a new content; the file may be new. -/
def write (files : Files) (path : String) (bytes : List UInt8) : Except HostError Files :=
  match files.target path with
  | .ok (.file path) => .ok (files.insert path bytes)
  | .ok (.device .full) => if bytes.isEmpty then .ok files else .error .noSpace
  | .ok (.device .terminal) => .error .noDevice
  | .ok (.device _) => .ok files
  | .ok .directory => .error .isDirectory
  | .ok .program => .error .denied
  | .error error => .error error

/-- The names in the directory of the command. -/
def names (files : Files) : List String :=
  (files.filterMap fun file => (Path.ofString file.1).steps.head?).eraseDups

end Files
end Xdr
