import Xdr.Shell.Builtin

/-!
# Running commands

What commands do to a running shell.

## Design Notes

A command that ends early throws a jump, which the part of the script that
it concerns catches: a loop, a function, a command that may fail, or the
shell as a whole. All commands of a pipe run one after the other.
-/

namespace Xdr.Shell

open Text (Raw)

inductive Target where
  | file (fd : Nat) (access : Access) (path : Raw)
  /-- Another descriptor, or none. -/
  | copy (fd : Nat) (source : Option Nat)
  | text (fd : Nat) (content : Raw)

inductive Found where
  | special
  | builtin
  | function (body : Command)
  /-- A program by its path. -/
  | program
  | nothing

def callLimit : Nat := 1000

def turnLimit : Nat := 1000000

def runningBuiltins : List String :=
  [".", "eval", "exec", "command", "type", "kill", "alias", "unalias"]

section

variable {m : Type → Type} [Monad m]

def isBuiltin (name : Raw) : Bool :=
  let text := String.ofList name
  runningBuiltins.contains text || (builtins (m := Id)).any fun entry => entry.1 == text

def splitAt (separator : Char) : Raw → List Raw
  | [] => [[]]
  | c :: cs =>
    match splitAt separator cs with
    | [] => [[c]]
    | part :: rest => if c == separator then [] :: part :: rest else (c :: part) :: rest

def searchProgram? (name : Raw) : Run m (Option Raw) := do
  let places := splitAt ':' ((← valueOf? "PATH".toList).getD [])
  return places.findSome? fun place =>
    let path := place ++ '/' :: name
    if isProgram (pathOf path) then some path else none

def findCommand (name : Raw) (functions : Bool) : Run m Found := do
  if name.contains '/' then return .program
  if specialBuiltins.contains (String.ofList name) then return .special
  let known := (← get).functions
  match if functions then known.lookup name else none with
  | some body => return .function body
  | none =>
    if isBuiltin name then return .builtin
    else return if (← searchProgram? name).isSome then .program else .nothing

section Redirections

def targetOf (engine : Engine m) (redirection : Redirection) : Run m Target := do
  match redirection with
  | .file fd access path => return .file fd access (← engine.text path)
  | .document fd number =>
    let document := ((← get).documents[number]?).getD []
    return .text fd (textOf (← engine.expand false document))
  | .duplicate fd source =>
    match ← engine.text source with
    | ['-'] => return .copy fd none
    | [c] =>
      if c.isDigit then return .copy fd (some (c.toNat - 48))
        else fail "Syntax error: Bad fd number".toList
    | _ => fail "Syntax error: Bad fd number".toList

def openReason (error : HostError) (missing : String) : Raw :=
  (match error with
    | .notFound => missing
    | .notDirectory => missing
    | error => error.reason).toList

def refuseOpen (what : String) (path reason : Raw) : Run m Bool := do
  complain (what.toList ++ ' ' :: path ++ ": ".toList ++ reason)
  return false

def copyFd (fd source : Nat) (refuse : Run m Bool) : Run m Bool := do
  match (← get).fds.lookup source with
  | some number =>
    openFd fd number
    return true
  | none => refuse

def openToRead (fd : Nat) (path : Raw) : Run m Bool := do
  match ← onHost fun host => host.read (pathOf path) with
  | .ok bytes =>
    openFd fd (← addStream (.source (Text.rawOfBytes bytes)))
    return true
  | .error .isDirectory =>
    openFd fd (← addStream (.source []))
    return true
  | .error error => refuseOpen "cannot open" path (openReason error "No such file")

def openToWrite (fd : Nat) (path : Raw) (append : Bool) : Run m Bool := do
  let name := pathOf path
  let content ← match ← onHost fun host => host.read name with
    | .ok bytes => pure bytes
    | .error _ => pure []
  match ← onHost fun host => host.write name (if append then content else []) with
  | .ok () =>
    openFd fd (← addStream (.file name (if append then none else some 0)))
    return true
  | .error error => refuseOpen "cannot create" path (openReason error "Directory nonexistent")

def openTarget (target : Target) : Run m Bool := do
  match target with
  | .text fd content =>
    openFd fd (← addStream (.source content))
    return true
  | .copy fd none =>
    closeFd fd
    return true
  | .copy fd (some source) =>
    copyFd fd source do
      closeFd fd
      complain ((toString source).toList ++ ": Bad file descriptor".toList)
      return false
  | .file fd access path =>
    match (Path.ofString (pathOf path)).streamNumber?, access with
    | some number, .read =>
      copyFd fd number (refuseOpen "cannot open" path "No such file".toList)
    | some number, _ =>
      copyFd fd number (refuseOpen "cannot create" path "Directory nonexistent".toList)
    | none, .read => openToRead fd path
    | none, .write => openToWrite fd path false
    | none, .append => openToWrite fd path true
    | none, .both => do
      if ← openToWrite fd path true then openToRead fd path else return false

/-- Opens descriptors in order, up to the first one that cannot be opened. -/
def openAll : List Target → Run m Bool
  | [] => return true
  | target :: targets => do
    if ← openTarget target then openAll targets else return false

def restoreFds (fds : List (Nat × Nat)) : Run m Unit :=
  modify fun state => { state with fds := fds }

end Redirections

section Commands

def checkExit (tested : Bool) : Run m Unit := do
  let state ← get
  if state.status ≠ 0 && !tested && state.options.contains 'e' then throw .exit

def callFunction (engine : Engine m) (tested : Bool) (body : Command) (args : List Raw) :
    Run m Unit := do
  let before ← get
  if callLimit ≤ before.locals.length then
    fail s!"Maximum function recursion depth ({callLimit}) reached".toList
  set { before with
    params := args, locals := [] :: before.locals, loops := 0, letterAt := none }
  let jump ← caught (engine.run tested [body])
  modify fun after =>
    let vars := (after.locals.headD []).foldl (fun (vars : Names Variable) (name, value) =>
      match value with
      | some variable_ => vars.insert name variable_
      | none => vars.erase name) after.vars
    { after with
      params := before.params, locals := before.locals, loops := before.loops, vars := vars
      letterAt := before.letterAt }
  match jump with
  | none => return
  | some .back => return
  | some jump => throw jump

def refuseStart (name : Raw) (error : HostError) : Run m Unit := do
  complain (name ++ ": ".toList ++ openReason error "not found")
  setStatus (match error with
    | .notFound => 127
    | .notDirectory => 127
    | .nameTooLong => 127
    | _ => 126)

def signalText? (signal : Nat) : Option String :=
  match signal with
  | 1 => some "Hangup"
  | 3 => some "Quit"
  | 4 => some "Illegal instruction"
  | 5 => some "Trace/breakpoint trap"
  | 6 => some "Aborted"
  | 7 => some "Bus error"
  | 8 => some "Floating point exception"
  | 9 => some "Killed"
  | 10 => some "User defined signal 1"
  | 11 => some "Segmentation fault"
  | 12 => some "User defined signal 2"
  | 14 => some "Alarm clock"
  | 15 => some "Terminated"
  | _ => none

def setEnding (ending : Ending) : Run m Unit := do
  match ending with
  | .exited status => setStatus status
  | .killed signal =>
    match signalText? signal with
    | some text =>
      let _ ← write 2 (text.toList ++ ['\n'])
    | none => pure ()
    setStatus (128 + signal)

/-- Writes what a tool wrote, in order; false if a descriptor did not take
it. -/
def writeAll : List (Tool.Channel × Raw) → Run m Bool
  | [] => return true
  | (channel, text) :: rest => do
    let done ← write (if channel == .output then 1 else 2) text
    return (← writeAll rest) && done

/-- Runs a tool on the descriptors of the shell; false if there is none of
that name. -/
def runTool (name : String) (called : Raw) (args : List Raw) : Run m Bool := do
  let input ← readAll 0
  let outcome? ← onHost fun host =>
    match Tool.program? host name with
    | some program => some <$> program called args input
    | none => return none
  match outcome? with
  | none => return false
  | some outcome =>
    let written ← writeAll outcome.writes
    unread 0 outcome.unread
    setEnding (if written then outcome.ending else .exited 1)
    return true

def runProgram (start : Raw → List Raw → Run m Unit) (called : Raw) (args : List Raw) :
    Run m Unit := do
  let path ← if called.contains '/' then pure (some called) else searchProgram? called
  match path with
  | none => refuseStart called .notFound
  | some path =>
    match ← onHost fun host => Tool.locate host (pathOf path) with
    | .error error => refuseStart called error
    | .ok name =>
      if name == "sh" then start called args
      else if !(← runTool name called args) then refuseStart called .notFound

def runFile (engine : Engine m) : Builtin m := fun args => do
  match args with
  | [] => return 0
  | name :: params =>
    match ← onHost fun host => host.read (pathOf name) with
    | .error .isDirectory => return 0
    | .error error =>
      if name.contains '/' then
        fail ("cannot open ".toList ++ name ++ ": ".toList ++ openReason error "No such file")
      else fail (name ++ ": not found".toList)
    | .ok bytes =>
      if !name.contains '/' then fail (name ++ ": not found".toList)
      let before ← get
      modify fun state => { state with
        command := some name
        params := if params.isEmpty then state.params else params }
      let jump ← caught (engine.script (Text.rawOfBytes bytes))
      modify fun state => { state with
        command := before.command
        params := if params.isEmpty then state.params else before.params }
      match jump with
      | none => pure ()
      | some .back => pure ()
      | some jump => throw jump
      return (← get).status

/-- How a command is described: the word itself if only that is asked for,
or a sentence. -/
def describe (short : Bool) (name : Raw) : Run m Nat := do
  let show_ (sentence : String) : Run m Nat :=
    emit (if short then name ++ ['\n'] else name ++ sentence.toList ++ ['\n'])
  if keywords.contains (String.ofList name) then show_ " is a shell keyword"
  else
    match ← findCommand name true with
    | .special => show_ " is a special shell builtin"
    | .builtin => show_ " is a shell builtin"
    | .function _ => show_ " is a shell function"
    | .program =>
      let path ← if name.contains '/' then
        pure (if isProgram (pathOf name) then some name else none)
        else searchProgram? name
      match path with
      | some path =>
        if short then emit (path ++ ['\n'])
          else emit (name ++ " is ".toList ++ path ++ ['\n'])
      | none => missing
    | .nothing => missing
where
  /-- Nothing is known about the name. -/
  missing : Run m Nat := do
    if !short then
      let _ ← emit (name ++ ": not found\n".toList)
    return 127

/-- Sends a signal to the shell, which is the only process that can be named
here. -/
def sendSignal (engine : Engine m) : Builtin m := fun args => do
  let usage : Run m Nat :=
    fail "Usage: kill [-s sigspec | -signum | -sigspec] [pid | job]... or\nkill -l [exitstatus]".toList
  let (signal, targets) ← match args with
    | ['-', 's'] :: name :: rest =>
      match signal? name with
      | some signal => pure (signal, rest)
      | none => fail ("invalid signal number or name: ".toList ++ name)
    | ['-', '-'] :: rest => pure (15, rest)
    | ('-' :: name) :: rest =>
      match signal? name with
      | some signal => pure (signal, rest)
      | none => fail ("Illegal option -".toList ++ name.take 1)
    | rest => pure (15, rest)
  if targets.isEmpty then let _ ← usage
  for target in targets do
    let state ← get
    let process ← countOf target
    if process != state.process then
      complain "No such process\n".toList
      return 1
    match state.traps.lookup signal with
    | some action =>
      if signal = 9 then throw (.killed signal)
      if !action.isEmpty && signal ≠ 0 then engine.script action
    | none =>
      if signal ≠ 0 && signal ≠ 17 && signal ≠ 18 && signal ≠ 23 && signal ≠ 28 then
        throw (.killed signal)
  return 0

/-- Runs a command of the shell itself, under its name. A fault ends the
shell only if the command is a special one. -/
def runBuiltin (isSpecial : Bool) (name : Raw) (action : Run m Nat) : Run m Unit := do
  let before := (← get).command
  modify fun state => { state with command := some name }
  let jump ← caught (do setStatus (← action))
  modify fun state => { state with command := before }
  match jump with
  | none => return
  | some .fault => if isSpecial then throw .fault
  | some jump => throw jump

/-- Gives variables values for one command; gives what they were before. -/
def assignFor (engine : Engine m) (isLasting : Bool) :
    List (Raw × List Part) → Run m (Names (Option Variable) × List Raw)
  | [] => return ([], [])
  | (name, word) :: rest => do
    let before := (← get).vars.lookup name
    let value ← engine.text word
    assign name value
    if !isLasting then changeVariable name fun variable_ =>
      { variable_ with exported := true }
    let (saved, shown) ← assignFor engine isLasting rest
    return ((name, before) :: saved, (name ++ '=' :: value) :: shown)

def restoreVariables (saved : Names (Option Variable)) : Run m Unit :=
  modify fun state => { state with
    vars := saved.reverse.foldl (fun (vars : Names Variable) (name, value) =>
      match value with
      | some variable_ => vars.insert name variable_
      | none => vars.erase name) state.vars }

def trace (words : List Raw) : Run m Unit := do
  if (← hasOption 'x') && !words.isEmpty then
    let front := (← valueOf? "PS4".toList).getD []
    let _ ← write 2 (front ++ [' '].intercalate words ++ ['\n'])

/-- The words of a command as fields. A command that marks variables takes
assignments as they are. -/
def commandFields (engine : Engine m) : List (List Part) → Run m (List Raw)
  | [] => return []
  | word :: words => do
    let first ← engine.fields word
    match first with
    | [] => commandFields engine words
    | [name] =>
      if ["export", "readonly", "local"].contains (String.ofList name) then
        let rest ← words.mapM fun word => do
          match assignment? word with
          | some (variable_, value) => return [variable_ ++ '=' :: (← engine.text value)]
          | none => engine.fields word
        return name :: rest.flatten
      else return name :: (← engine.allFields words)
    | several => return several ++ (← engine.allFields words)

def execProgram (start : Raw → List Raw → Run m Unit) (args : List Raw) : Run m Nat := do
  match args with
  | [] => return 0
  | name :: args =>
    let found ← findCommand name false
    let isThere ← match found with
      | .program => pure true
      | _ => (·.isSome) <$> searchProgram? name
    if !isThere then failWith 127 (name ++ ": not found".toList)
    runProgram start name args
    throw .exit

def dispatchBuiltin (engine : Engine m) (start : Raw → List Raw → Run m Unit) (name : Raw)
    (args : List Raw) : Run m Nat := do
  match String.ofList name with
  | "eval" =>
    engine.script ([' '].intercalate args)
    return (← get).status
  | "." => runFile engine args
  | "exec" => execProgram start args
  | "type" =>
    let statuses ← args.mapM (describe false)
    return if statuses.all (· == 0) then 0 else 127
  | "kill" => sendSignal engine args
  | "alias" | "unalias" =>
    match args.find? fun arg => !arg.contains '=' with
    | some arg =>
      let _ ← write 2 (name ++ ": ".toList ++ arg ++ " not found\n".toList)
      return 1
    | none => return 0
  | text =>
    match builtins.lookup text with
    | some builtin => builtin args
    | none => return 127

/-- What stands after a command that only looks another one up: what is
asked for, and the words of the other. -/
def lookupWords (words : List Raw) : Run m (Option Bool × List Raw) := do
  let (letters, rest) ← readOptions ['p', 'v', 'V'] [] words
  let asked := letters.filter fun letter => letter.1 != 'p'
  return (asked.getLast?.map fun letter => letter.1 == 'v', rest)

/-- Runs a command by its words, after its assignments and redirections. -/
def runWords (engine : Engine m) (start : Raw → List Raw → Run m Unit) (tested : Bool)
    (found : Found) (isSpecial : Bool) (words : List Raw) : Run m Unit := do
  match words with
  | [] => setStatus ((← get).substituted.getD 0)
  | name :: args =>
    match found with
    | .special => runBuiltin isSpecial name (dispatchBuiltin engine start name args)
    | .builtin => runBuiltin false name (dispatchBuiltin engine start name args)
    | .function body => callFunction engine tested body args
    | .program => runProgram start name args
    | .nothing => refuseStart name .notFound

/-- The words of a command without the commands in front that run another
one, whether there were any, and a status if only a description was asked
for. The number of words is enough of steps. -/
def underlying : Nat → List Raw → Run m (Bool × List Raw × Option (Run m Nat))
  | 0, words => return (false, words, none)
  | steps + 1, words =>
    match words with
    | name :: rest => do
      if name != "command".toList then return (false, words, none)
      let before := (← get).command
      modify fun state => { state with command := some name }
      let (asked, rest) ← lookupWords rest
      modify fun state => { state with command := before }
      match asked, rest with
      | _, [] => return (true, words, some (return 0))
      | some short, name :: _ => return (true, words, some (describe short name))
      | none, rest => do
        let (_, words, answer) ← underlying steps rest
        return (true, words, answer)
    | [] => return (false, [], none)

def runSimple (engine : Engine m) (start : Raw → List Raw → Run m Unit)
    (tested : Bool) (line : Nat)
    (assignments : List (Raw × List Part)) (words : List (List Part))
    (redirections : List Redirection) : Run m Unit := do
  modify fun state => { state with line := line, substituted := none }
  let all ← commandFields engine words
  let resolved ← tryUnderlying all
  match resolved with
  | none => return
  | some (isIndirect, words, answer) =>
    let found ← match words with
      | [] => pure Found.nothing
      | name :: _ => findCommand name (!isIndirect)
    let isSpecial := match found with
      | .special => !isIndirect
      | _ => false
    let targets ← redirections.mapM (targetOf engine)
    let fds := (← get).fds
    if !(← openAll targets) then
      restoreFds fds
      setStatus 2
      if isSpecial then throw .fault
    else
      let isLasting := isSpecial || words.isEmpty
      let inner := (← get).fds
      let (saved, shown) ← assignFor engine isLasting assignments
      restoreFds fds
      trace (shown ++ all)
      restoreFds inner
      let jump ← caught (match answer with
        | some answer => runBuiltin false "command".toList answer
        | none => runWords engine start tested found isSpecial words)
      if !isLasting then restoreVariables saved
      let isLastingOpen := words.head? == some "exec".toList && jump.isNone
      if !isLastingOpen then restoreFds fds
      match jump with
      | none => return
      | some jump => throw jump
where
  /-- The words of a command behind those that run another one, unless they
  are wrong. -/
  tryUnderlying (words : List Raw) :
    Run m (Option (Bool × List Raw × Option (Run m Nat))) := do
    try
      return some (← underlying (words.length + 1) words)
    catch jump =>
      modify fun state => { state with command := none }
      if jump == .fault then return none else throw jump

/-- Runs the commands of a pipe, of which the first may read a given stream.
-/
def runPipe (engine : Engine m) (tested : Bool) : Option Nat → List Command → Run m Unit
  | _, [] => return
  | input, command :: commands => do
    let connect : Run m Unit := match input with
      | some number => openFd 0 number
      | none => return
    if commands.isEmpty then
      setStatus (← subshell engine (do connect; engine.run tested [command]))
    else
      let number ← addStream (.sink [])
      let _ ← subshell engine (do connect; openFd 1 number; engine.run tested [command])
      let text ← writtenTo number
      setStream number (.source text)
      runPipe engine tested (some number) commands

def turn (action : Run m Unit) : Run m Bool := do
  match ← caught action with
  | none => return true
  | some (.leave (count + 2) again) => throw (.leave (count + 1) again)
  | some (.leave _ again) => return again
  | some jump => throw jump

def inLoop (action : Run m Unit) : Run m Unit := do
  modify fun state => { state with loops := state.loops + 1 }
  let jump ← caught action
  modify fun state => { state with loops := state.loops - 1 }
  match jump with
  | none => return
  | some jump => throw jump

/-- Repeats a body as long as its condition tells to; the status is the one
of the last turn. -/
def repeatBody (engine : Engine m) (tested negated : Bool) (condition body : List Command) :
    Nat → Nat → Run m Unit
  | 0, _ => throw .exit
  | turns + 1, last => do
    let decided ← turn (engine.run true condition)
    if !decided then setStatus 0
    else
      let holds := ((← get).status == 0) != negated
      if !holds then setStatus last
      else
        let goesOn ← turn (engine.run tested body)
        let status := (← get).status
        if goesOn then repeatBody engine tested negated condition body turns status
          else setStatus status

def eachValue (engine : Engine m) (tested : Bool) (name : Raw) (body : List Command) :
    List Raw → Run m Unit
  | [] => return
  | value :: values => do
    assign name value
    if ← turn (engine.run tested body) then eachValue engine tested name body values

/-- The body of the first branch with a pattern that a text matches. -/
def matchingBranch (engine : Engine m) (subject : Raw) :
    List (List (List Part) × List Command) → Run m (Option (List Command))
  | [] => return none
  | (patterns, body) :: branches => do
    if ← anyMatches patterns then return some body else matchingBranch engine subject branches
where
  /-- Whether one of some patterns is matched. -/
  anyMatches : List (List Part) → Run m Bool
    | [] => return false
    | pattern :: patterns => do
      if Glob.fits (← engine.pattern pattern) subject then return true
        else anyMatches patterns

def runCommand (engine : Engine m) (start : Raw → List Raw → Run m Unit) (tested : Bool)
    (command : Command) : Run m Unit := do
  match command with
  | .simple line assignments words redirections =>
    runSimple engine start tested line assignments words redirections
    checkExit tested
  | .pipe negated commands =>
    match negated, commands with
    | true, [only] =>
      engine.run true [only]
      modify fun state => { state with status := if state.status = 0 then 1 else 0 }
    | true, commands =>
      runPipe engine true none commands
      modify fun state => { state with status := if state.status = 0 then 1 else 0 }
    | false, commands =>
      runPipe engine tested none commands
      checkExit tested
  | .both first second =>
    engine.run true [first]
    if (← get).status = 0 then engine.run tested [second]
  | .either first second =>
    engine.run true [first]
    if (← get).status ≠ 0 then engine.run tested [second]
  | .group commands => engine.run tested commands
  | .subshell line commands =>
    modify fun state => { state with line := line }
    setStatus (← subshell engine (engine.run tested commands))
    checkExit tested
  | .background command =>
    let number ← addStream (.source [])
    let _ ← subshell engine (do openFd 0 number; engine.run tested [command])
    setStatus 0
  | .redirected line command redirections =>
    modify fun state => { state with line := line }
    let targets ← redirections.mapM (targetOf engine)
    let fds := (← get).fds
    if !(← openAll targets) then
      restoreFds fds
      setStatus 2
    else
      let jump ← caught (engine.run tested [command])
      restoreFds fds
      match jump with
      | none => return
      | some jump => throw jump
  | .choice condition body otherwise =>
    engine.run true condition
    if (← get).status = 0 then engine.run tested body
    else if otherwise.isEmpty then setStatus 0
    else engine.run tested otherwise
  | .loop negated condition body =>
    inLoop (repeatBody engine tested negated condition body turnLimit 0)
  | .each line name words body =>
    modify fun state => { state with line := line }
    let values ← match words with
      | some words => engine.allFields words
      | none => pure (← get).params
    if values.isEmpty then setStatus 0
    else inLoop (eachValue engine tested name body values)
  | .cases line subject branches =>
    modify fun state => { state with line := line }
    let text ← engine.text subject
    match ← matchingBranch engine text branches with
    | none => setStatus 0
    | some [] => setStatus 0
    | some commands => engine.run tested commands
  | .define _ name body =>
    modify fun state => { state with functions := state.functions.insert name body }
    setStatus 0

def runAll (engine : Engine m) (start : Raw → List Raw → Run m Unit) (tested : Bool) :
    List Command → Run m Unit
  | [] => return
  | command :: commands => do
    if !(← hasOption 'n') then runCommand engine start tested command
    runAll engine start tested commands

/-- Runs a script line by line from where reading stands. Each line has a
character, so the number of characters is enough of steps. -/
def runLines (engine : Engine m) : Nat → Cursor → Bool → Run m Unit
  | 0, _, _ => return
  | steps + 1, cursor, ran => do
    match readLine.run { cursor with documents := (← get).documents } with
    | .error fault =>
      modify fun state => { state with line := fault.line }
      fail fault.message.toList
    | .ok (none, _) => if !ran then setStatus 0
    | .ok (some commands, after) =>
      modify fun state => { state with documents := after.documents }
      engine.run false commands
      runLines engine steps after (ran || !commands.isEmpty)

def runScript (engine : Engine m) (text : Raw) : Run m Unit :=
  runLines engine (text.length + 2) ⟨text, 1, none, [], []⟩ false

end Commands

section Shells

/-- The variables that a new shell has besides those that it is given. -/
def initialVariables : Names Variable :=
  [("IFS".toList, ⟨some [' ', '\t', '\n'], false, false⟩),
    ("OPTIND".toList, ⟨some ['1'], false, false⟩),
    ("PS1".toList, ⟨some ['#', ' '], false, false⟩),
    ("PS2".toList, ⟨some ['>', ' '], false, false⟩),
    ("PS4".toList, ⟨some ['+', ' '], false, false⟩)]

def State.fresh (state : State) (called : Raw) : State :=
  let kept := state.vars.filter fun entry => entry.2.exported && entry.1 != "IFS".toList
  { state with
    name := called
    params := []
    vars :=
      kept.map (fun entry => (entry.1, { entry.2 with locked := false })) ++ initialVariables
    functions := []
    documents := []
    status := 0
    substituted := none
    options := []
    line := 0
    command := none
    locals := []
    loops := 0
    traps := state.traps.filter fun trap => trap.2.isEmpty
    letterAt := none
    process := state.process + 1 }

/-- The script that the arguments of a shell tell, after its options and its
parameters were set. -/
def scriptOf (args : List Raw) : Run m Raw := do
  let (isArgument, rest) ← setOptions true args.length args
  match isArgument, rest with
  | true, [] => fail "-c requires an argument".toList
  | true, script :: rest =>
    match rest with
    | [] => pure ()
    | name :: params => modify fun state => { state with name := name, params := params }
    return script
  | false, rest =>
    if rest.isEmpty then setOption 's' true
    if ← hasOption 's' then
      modify fun state => { state with params := rest }
      return (← readAll 0).filter (· != '\x00')
    match rest with
    | [] => return []
    | path :: params =>
      match ← onHost fun host => host.read (pathOf path) with
      | .ok bytes =>
        modify fun state => { state with name := path, params := params }
        return (Text.rawOfBytes bytes).filter (· != '\x00')
      | .error .isDirectory => return []
      | .error error =>
        fail ("cannot open ".toList ++ path ++ ": ".toList ++ openReason error "No such file")

/-- Runs a new shell by its command line to its end; gives how it ended. -/
def shellEnding (engine : Engine m) (called : Raw) (args : List Raw) : Run m Ending := do
  modify fun state => state.fresh called
  let jump ← caught (do engine.script (← scriptOf args))
  let jump ← match jump with
    | some (.killed _) => pure jump
    | _ => caught (runTrap engine)
  match jump with
  | some (.killed signal) => return .killed signal
  | _ => return .exited ((← get).status % 256)

def startShell (engine : Engine m) (called : Raw) (args : List Raw) : Run m Unit := do
  let before ← get
  let ending ← shellEnding engine called args
  modify fun after => { before with streams := after.streams }
  setEnding ending

def tooDeep {α : Type} : Run m α := do
  setStatus 2
  throw .exit

mutual

/-- Expands parts of a word, with commands inside nested at most so deeply. -/
def expandAt : Nat → Bool → List Part → Run m (List Piece)
  | 0, _, _ => tooDeep
  | depth + 1, several, parts =>
    expandParts ⟨expandAt depth, runAt depth, scriptAt depth⟩ several parts

def runAt : Nat → Bool → List Command → Run m Unit
  | 0, _, _ => tooDeep
  | depth + 1, tested, commands =>
    runAll ⟨expandAt depth, runAt depth, scriptAt depth⟩ (startAt depth) tested commands

def scriptAt : Nat → Raw → Run m Unit
  | 0, _ => tooDeep
  | depth + 1, text => runScript ⟨expandAt depth, runAt depth, scriptAt depth⟩ text

/-- Runs a new shell, with commands inside nested at most so deeply. -/
def startAt : Nat → Raw → List Raw → Run m Unit
  | 0, _, _ => tooDeep
  | depth + 1, called, args =>
    startShell ⟨expandAt depth, runAt depth, scriptAt depth⟩ called args

end

def depthLimit : Nat := 20000

/-- The engine of a shell whose commands are nested at most so deeply. -/
def engineAt (depth : Nat) : Engine m :=
  ⟨expandAt depth, runAt depth, scriptAt depth⟩

def program (host : Host m) : Tool.Program m := fun called args input => do
  let environment : Names Variable :=
    [("PATH".toList,
      ⟨some "/usr/local/sbin:/usr/local/bin:/usr/sbin:/usr/bin:/sbin:/bin".toList,
        true, false⟩)]
  let state : State := {
    name := called, params := [], vars := environment, functions := [],
      documents := [], status := 0
    substituted := none, streams := #[.source input, .sink [], .sink []],
      fds := [(0, 0), (1, 1), (2, 2)]
    options := [], line := 0, command := none, locals := [], loops := 0, traps := [],
      letterAt := none
    place := "", process := 1000 }
  let (result, after) ← ((shellEnding (engineAt depthLimit) called args).run host).run state
  let ending := match result with
    | .ok ending => ending
    | .error _ => .exited 2
  let textOf (number : Nat) : Raw := match after.streams[number]? with
    | some (.sink written) => written.reverse.flatten
    | some (.source left) => left
    | _ => []
  return ⟨[(.errors, textOf 2), (.output, textOf 1)], textOf 0, ending⟩

end Shells

end

end Xdr.Shell
