import Xdr.Shell.Parser
import Xdr.Text.Numeral
import Xdr.Tool.Program

/-!
# States of a shell

What a running shell remembers, and the actions on it that need no
evaluation.

## Design Notes

A shell inside another one has variables of its own but the same streams, so
a state is put back except for its streams. A pipe is a stream that the
first command writes and the second one reads, one after the other.
-/

namespace Xdr.Shell

open Text (Raw)

inductive Stream where
  /-- Text that is left to read. -/
  | source (left : Raw)
  /-- Text that was written, the last part first. -/
  | sink (written : List Raw)
  /-- A file that is written from a position on, or always at its end. -/
  | file (path : String) (position : Option Nat)

structure Variable where
  value : Option Raw
  exported : Bool
  locked : Bool
  deriving DecidableEq, Repr

abbrev Names (α : Type) := List (Raw × α)

namespace Names

variable {α : Type}

def insert (names : Names α) (name : Raw) (value : α) : Names α :=
  (name, value) :: names.filter fun entry => entry.1 != name

def erase (names : Names α) (name : Raw) : Names α :=
  names.filter fun entry => entry.1 != name

end Names

structure State where
  /-- What the shell calls itself. -/
  name : Raw
  params : List Raw
  vars : Names Variable
  functions : Names Command
  documents : List (List Part)
  /-- The status of the last command. -/
  status : Nat
  /-- The status of the last command whose output became part of a word,
  since a command began. -/
  substituted : Option Nat
  streams : Array Stream
  /-- The stream that each open descriptor leads to. -/
  fds : List (Nat × Nat)
  /-- The letters of the options that are set. -/
  options : List Char
  line : Nat
  /-- The command of the shell itself that is running. -/
  command : Option Raw
  /-- What the local variables of each function that is running were before.
  -/
  locals : List (Names (Option Variable))
  /-- How many loops the commands stand in. -/
  loops : Nat
  /-- What is run on a signal, or at the end, by the number of the signal. -/
  traps : List (Nat × Raw)
  /-- Where reading the letters of a parameter goes on. -/
  letterAt : Option Nat
  /-- The directory of the shell, from the one in which it was started. -/
  place : String
  /-- The number of the shell's process. -/
  process : Nat

inductive Jump where
  /-- The shell ends with its status. -/
  | exit
  /-- Something is wrong, after which the shell ends unless the command may
  fail. -/
  | fault
  /-- So many loops end, the last of which may go on with its next turn. -/
  | leave (loops : Nat) (again : Bool)
  /-- A function or a file that is read ends. -/
  | back
  /-- The shell is ended by a signal. -/
  | killed (signal : Nat)
  deriving DecidableEq, Repr

abbrev Run (m : Type → Type) := ReaderT (Host m) (ExceptT Jump (StateT State m))

section

variable {m : Type → Type} [Monad m]

def hostFrom (host : Host m) (place : String) : Host m :=
  let from_ (path : String) : String :=
    if place.isEmpty || path.isEmpty || path.toList.head? == some '/' then path
      else place ++ "/" ++ path
  if place.isEmpty then host
  else { host with
    read := fun path => host.read (from_ path)
    write := fun path bytes => host.write (from_ path) bytes
    names := return [] }

def onHost {α : Type} (action : Host m → m α) : Run m α := do
  let host ← read
  let place := (← get).place
  liftM (liftM (action (hostFrom host place)) : StateT State m α)

def pathOf (text : Raw) : String :=
  Text.ofRaw text

def stream? (fd : Nat) : Run m (Option (Nat × Stream)) := do
  let state ← get
  return (state.fds.lookup fd).bind fun number => state.streams[number]?.map (number, ·)

def setStream (number : Nat) (stream : Stream) : Run m Unit :=
  modify fun state => { state with streams := state.streams.setIfInBounds number stream }

def addStream (stream : Stream) : Run m Nat := do
  let number := (← get).streams.size
  modify fun state => { state with streams := state.streams.push stream }
  return number

def openFd (fd number : Nat) : Run m Unit :=
  modify fun state =>
    { state with fds := (fd, number) :: state.fds.filter fun entry => entry.1 != fd }

def closeFd (fd : Nat) : Run m Unit :=
  modify fun state => { state with fds := state.fds.filter fun entry => entry.1 != fd }

def writeStream (number : Nat) (stream : Stream) (text : Raw) : Run m Bool := do
  match stream with
  | .source _ => return false
  | .sink written =>
    setStream number (.sink (text :: written))
    return true
  | .file path position =>
    let before := match ← onHost fun host => host.read path with
      | .ok bytes => bytes
      | .error _ => []
    let start := position.getD before.length
    let bytes := Text.rawBytes text
    let content := before.take start ++ bytes ++ before.drop (start + bytes.length)
    setStream number (.file path (position.map (· + bytes.length)))
    match ← onHost fun host => host.write path content with
    | .ok () => return true
    | .error _ => return false

/-- Writes to a descriptor; false if it is not open or takes nothing. -/
def write (fd : Nat) (text : Raw) : Run m Bool := do
  if text.isEmpty then return true
  match ← stream? fd with
  | some (number, stream) => writeStream number stream text
  | none => return false

/-- All that is left to read from a descriptor, which then has nothing left.
-/
def readAll (fd : Nat) : Run m Raw := do
  match ← stream? fd with
  | some (number, .source left) =>
    setStream number (.source [])
    return left
  | _ => return []

/-- Puts text back in front of what is left to read from a descriptor. -/
def unread (fd : Nat) (text : Raw) : Run m Unit := do
  match ← stream? fd with
  | some (number, .source left) => setStream number (.source (text ++ left))
  | _ => return ()

def hasOption (letter : Char) : Run m Bool :=
  return (← get).options.contains letter

def setStatus (status : Nat) : Run m Unit :=
  modify fun state => { state with status := status }

def complain (text : Raw) : Run m Unit := do
  let state ← get
  let command := match state.command with
    | some name => name ++ ": ".toList
    | none => []
  let line := (toString state.line).toList
  let _ ← write 2 (state.name ++ ": ".toList ++ line ++ ": ".toList ++ command ++
    text ++ ['\n'])

def failWith {α : Type} (status : Nat) (text : Raw) : Run m α := do
  complain text
  setStatus status
  throw .fault

def fail {α : Type} (text : Raw) : Run m α :=
  failWith 2 text

def badNumber {α : Type} (text : Raw) : Run m α :=
  fail ("Illegal number: ".toList ++ text)

def countOf (text : Raw) : Run m Nat := do
  let n := Text.decimal text
  if text.isEmpty || !text.all Char.isDigit || 0x80000000 ≤ n then badNumber text
  return n

def valueOf? (name : Raw) : Run m (Option Raw) := do
  return ((← get).vars.lookup name).bind (·.value)

def changeVariable (name : Raw) (change : Variable → Variable) : Run m Unit := do
  let state ← get
  let before := (state.vars.lookup name).getD ⟨none, state.options.contains 'a', false⟩
  let after := change before
  if before.locked && after.value != before.value then fail (name ++ ": is read only".toList)
  set { state with vars := state.vars.insert name after }

def assign (name value : Raw) : Run m Unit := do
  let state ← get
  match state.vars.lookup name with
  | some before => if before.locked then fail (name ++ ": is read only".toList)
  | none => pure ()
  changeVariable name fun before => { before with value := some value }

def assignNamed (name value : Raw) : Run m Unit := do
  if !isName name then fail (name ++ ": bad variable name".toList)
  assign name value

def separators : Run m Raw := do
  match (← get).vars.lookup "IFS".toList with
  | some ⟨some value, _, _⟩ => return value
  | _ => return [' ', '\t', '\n']

end

end Xdr.Shell
