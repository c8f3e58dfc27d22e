import Xdr.Shell.Arithmetic
import Xdr.Shell.Pattern
import Xdr.Shell.State

/-!
# Expansion

What the words of a script become: parameters, the output of commands and
numbers take their places, and the result is divided into fields.

## Design Notes

Words hold commands, and commands hold words. The definitions here take the
other side as an argument, an engine, so that each of them stands on its
own.
-/

namespace Xdr.Shell

open Text (Raw)

inductive Mark where
  /-- The script itself, outside quotes. -/
  | plain
  /-- Quotes. -/
  | quoted
  /-- A value outside quotes, which is divided into fields. -/
  | value
  deriving DecidableEq, Repr

inductive Piece where
  | char (c : Char) (mark : Mark)
  /-- There is a field even if no character follows. -/
  | present
  /-- A field ends. -/
  | gap
  deriving DecidableEq, Repr

/-- What expansion needs of the rest of the shell: how parts of a word are
expanded, possibly into several fields, how commands are run, possibly as a
condition, and how a script is run. -/
structure Engine (m : Type → Type) where
  expand : Bool → List Part → Run m (List Piece)
  run : Bool → List Command → Run m Unit
  script : Raw → Run m Unit

section

variable {m : Type → Type} [Monad m]

def caught (action : Run m Unit) : Run m (Option Jump) := do
  try
    action
    return none
  catch jump => return some jump

/-- Runs what is to be run at the end of a shell, after which the status is
the one from before. -/
def runTrap (engine : Engine m) : Run m Unit := do
  let state ← get
  match state.traps.lookup 0 with
  | none => return
  | some text =>
    set { state with traps := [], command := none }
    match ← caught (engine.script text) with
    | none => setStatus state.status
    | some jump => throw jump

/-- Runs an action in a shell of its own, and gives the status of that
shell. -/
def subshell (engine : Engine m) (action : Run m Unit) : Run m Nat := do
  let before ← get
  modify fun state => { state with traps := state.traps.filter fun trap => trap.2.isEmpty }
  let jump ← caught action
  let jump ← match jump with
    | some (.killed _) => pure jump
    | _ => caught (runTrap engine)
  let after ← get
  set { before with streams := after.streams }
  match jump with
  | some (.killed signal) => throw (.killed signal)
  | _ => return after.status

def writtenTo (number : Nat) : Run m Raw := do
  match (← get).streams[number]? with
  | some (.sink written) => return written.reverse.flatten
  | _ => return []

/-- The output of commands without the ends of lines that it ends with. -/
def outputOf (engine : Engine m) (commands : List Command) : Run m Raw := do
  let number ← addStream (.sink [])
  let status ← subshell engine (do openFd 1 number; engine.run false commands)
  modify fun state => { state with substituted := some status }
  let output := (← writtenTo number).filter (· != '\x00')
  return (output.reverse.dropWhile (· == '\n')).reverse

/-- The letters of all options, in the order in which they are shown. -/
def optionLetters : List Char :=
  "pubaCEVvxsnmiIfe".toList

def joinedParams : Run m Raw := do
  let separator := (← separators).take 1
  return separator.intercalate (← get).params

def param? (name : Raw) : Run m (Option Raw) := do
  let state ← get
  match name with
  | ['@'] | ['*'] => return some (← joinedParams)
  | ['#'] => return some (toString state.params.length).toList
  | ['?'] => return some (toString state.status).toList
  | ['$'] => return some (toString state.process).toList
  | ['!'] => return none
  | ['-'] => return some (optionLetters.filter state.options.contains)
  | ['0'] => return some state.name
  | c :: _ =>
    if c.isDigit then
      return state.params[Text.decimal name - 1]?
    else valueOf? name
  | [] => return none

def valuePieces (quoted : Bool) (value : Raw) : List Piece :=
  if quoted then .present :: value.map (.char · .quoted) else value.map (.char · .value)

def paramPieces (quoted : Bool) (params : List Raw) : List Piece :=
  [Piece.gap].intercalate (params.map (valuePieces quoted))

def textOf (pieces : List Piece) : Raw :=
  pieces.filterMap fun
    | .char c _ => some c
    | _ => none

def patternOf (pieces : List Piece) : List Glob :=
  Glob.parse (pieces.filterMap fun
    | .char c mark => some (c, mark == .quoted)
    | _ => none)

def expandParam (several : Bool) (name : Raw) (quoted : Bool) : Run m (List Piece) := do
  let state ← get
  if several && (name == ['@'] || (name == ['*'] && !quoted)) then
    return paramPieces quoted state.params
  match ← param? name with
  | some value => return valuePieces quoted value
  | none =>
    if state.options.contains 'u' then fail (name ++ ": parameter not set".toList)
    return valuePieces quoted []

def insteadPieces (quoted : Bool) (pieces : List Piece) : List Piece :=
  if quoted then .present :: pieces
  else pieces.map fun
    | .char c .plain => .char c .value
    | piece => piece

def expandChanged (engine : Engine m) (several : Bool) (name : Raw) (change : Change)
    (full : Bool) (word : List Part) (quoted : Bool) : Run m (List Piece) := do
  let value ← param? name
  let isMissing := match value with
    | some value => full && value.isEmpty
    | none => true
  let trim (longest : Bool → List Glob → Raw → Raw) : Run m (List Piece) := do
    match value with
    | some value =>
      return valuePieces quoted (longest full (patternOf (← engine.expand false word)) value)
    | none => expandParam several name quoted
  let unset : Run m (List Piece) :=
    if quoted && (name == ['@']) then return [] else return valuePieces quoted []
  match change with
  | .orElse =>
    if isMissing then return insteadPieces quoted (← engine.expand several word)
    else expandParam several name quoted
  | .instead =>
    if isMissing then unset else return insteadPieces quoted (← engine.expand several word)
  | .assign =>
    if isMissing then
      let text := textOf (← engine.expand false word)
      assignNamed name text
      return valuePieces quoted text
    else expandParam several name quoted
  | .complain =>
    if isMissing then
      let text := textOf (← engine.expand false word)
      let reason := if !word.isEmpty then text
        else if full then "parameter not set or null".toList
        else "parameter not set".toList
      fail (name ++ ": ".toList ++ reason)
    else expandParam several name quoted
  | .trimFront => trim Glob.trimFront
  | .trimBack => trim Glob.trimBack

def arithmetic (text : Raw) : Run m Int := do
  let refuse (reason : String) : Run m Int :=
    fail (s!"arithmetic expression: {reason}: \"".toList ++ text ++ ['\x22'])
  let lookup (name : Raw) : Run m Int := do
    match ← valueOf? name with
    | none => return 0
    | some value =>
      match Text.wholeNumber? value with
      | some n => return n
      | none => badNumber value
  let store (name : Raw) (n : Int) : Run m Unit := assign name (toString n).toList
  (Expr.parse text).value lookup store refuse

def lengthOf (name : Raw) : Run m Raw := do
  match ← param? name with
  | some value => return (toString value.length).toList
  | none =>
    if ← hasOption 'u' then fail (name ++ ": parameter not set".toList)
    return ['0']

def expandPart (engine : Engine m) (several : Bool) (part : Part) : Run m (List Piece) := do
  match part with
  | .text cs true => return .present :: cs.map (.char · .quoted)
  | .text cs false => return cs.map (.char · .plain)
  | .param name quoted => expandParam several name quoted
  | .length name quoted => return valuePieces quoted (← lengthOf name)
  | .changed name change full word quoted =>
    expandChanged engine several name change full word quoted
  | .malformed => fail "Bad substitution".toList
  | .output commands quoted => return valuePieces quoted (← outputOf engine commands)
  | .number expression quoted =>
    let n ← arithmetic (textOf (← engine.expand false expression))
    return valuePieces quoted (toString n).toList

def expandParts (engine : Engine m) (several : Bool) : List Part → Run m (List Piece)
  | [] => return []
  | part :: parts => do
    let pieces ← expandPart engine several part
    return pieces ++ (← expandParts engine several parts)

structure Fields where
  /-- The fields that have ended, the last one first. -/
  done : List (List PatternChar)
  /-- The characters of the current field, the last one first. -/
  current : List PatternChar
  /-- Whether there is a current field. -/
  started : Bool
  /-- Whether the last field was ended by a blank, which may be part of
  another separator. -/
  afterBlank : Bool

namespace Fields

def close (fields : Fields) : Fields :=
  ⟨fields.current.reverse :: fields.done, [], false, false⟩

def add (fields : Fields) (c : PatternChar) : Fields :=
  { fields with current := c :: fields.current, started := true, afterBlank := false }

def divide (fields : Fields) (c : Char) : Fields :=
  if c == ' ' || c == '\t' || c == '\n' then
    if fields.started then { fields.close with afterBlank := true } else fields
  else if fields.started || !fields.afterBlank then fields.close
  else { fields with afterBlank := false }

def push (separators : Raw) (fields : Fields) (piece : Piece) : Fields :=
  match piece with
  | .char c mark =>
    if mark == .value && separators.contains c then fields.divide c
      else fields.add (c, mark == .quoted)
  | .present => { fields with started := true, afterBlank := false }
  | .gap => if fields.started then fields.close else fields

end Fields

def fieldsOf (separators : Raw) (pieces : List Piece) : List (List PatternChar) :=
  let fields := pieces.foldl (Fields.push separators) ⟨[], [], false, false⟩
  (if fields.started then fields.close else fields).done.reverse

/-- The names that a field stands for, if it is a pattern that some match. -/
def namesFor (field : List PatternChar) : Run m (List Raw) := do
  let literal := field.map (·.1)
  if ← hasOption 'f' then return [literal]
  let (front, field) := match field with
    | ('.', _) :: ('/', _) :: rest => (['.', '/'], rest)
    | _ => ([], field)
  let globs := Glob.parse field
  if !Glob.isOpen globs then return [literal]
  let names := ['.'] :: ['.', '.'] :: (← onHost fun host => host.names).map Text.raw
  let isHidden (name : Raw) : Bool :=
    name.head? == some '.' && globs.head? != some (.char '.')
  let fitting := names.filter fun name => !isHidden name && Glob.fits globs name
  if fitting.isEmpty then return [literal]
  return (fitting.mergeSort Text.notAfter).map (front ++ ·)

namespace Engine

def withHome (word : List Part) : Run m (List Part) := do
  match word with
  | .text ('~' :: cs) false :: rest =>
    if cs.isEmpty && rest.isEmpty || cs.head? == some '/' then
      match ← valueOf? "HOME".toList with
      | some home => return .text home true :: .text cs false :: rest
      | none => return word
    else return word
  | _ => return word

def fields (engine : Engine m) (word : List Part) : Run m (List Raw) := do
  let pieces ← engine.expand true (← withHome word)
  let separators ← separators
  let names ← (fieldsOf separators pieces).mapM namesFor
  return names.flatten

def allFields (engine : Engine m) (words : List (List Part)) : Run m (List Raw) := do
  return (← words.mapM engine.fields).flatten

def text (engine : Engine m) (word : List Part) : Run m Raw := do
  return textOf (← engine.expand false (← withHome word))

def pattern (engine : Engine m) (word : List Part) : Run m (List Glob) := do
  return patternOf (← engine.expand false word)

end Engine

end

end Xdr.Shell
