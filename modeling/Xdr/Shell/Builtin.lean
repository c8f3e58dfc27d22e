import Xdr.Shell.Condition
import Xdr.Shell.Expansion
import Xdr.Shell.Format

/-!
# Commands of the shell itself

The commands that change or show what the shell remembers and that run no
other commands.
-/

namespace Xdr.Shell

open Text (Raw)

/-- A command of the shell itself: what it does with its arguments, and its
status. -/
abbrev Builtin (m : Type → Type) := List Raw → Run m Nat

section

variable {m : Type → Type} [Monad m]

def emit (text : Raw) : Run m Nat := do
  if ← write 1 text then return 0
  complain ((← get).command.getD [] ++ ": I/O error".toList)
  return 1

/-- Letters with a value each if they take one, and the rest of the
arguments. -/
abbrev Letters := List (Char × Raw) × List Raw

def readLetters (flags valued : List Char) (args : List Raw) : Raw → Run m Letters
  | [] => return ([], args)
  | c :: cs => do
    if flags.contains c then
      let (letters, args) ← readLetters flags valued args cs
      return ((c, []) :: letters, args)
    else if valued.contains c then
      match cs, args with
      | [], [] => fail ("No arg for -".toList ++ c :: " option".toList)
      | [], value :: args => return ([(c, value)], args)
      | value, args => return ([(c, value)], args)
    else fail ("Illegal option -".toList ++ [c])

/-- The options in front of the arguments of a command, of which some take a
value. The number of arguments is enough of steps. -/
def readOptionSteps (flags valued : List Char) : Nat → List Raw → Run m Letters
  | 0, args => return ([], args)
  | steps + 1, args =>
    match args with
    | ['-', '-'] :: args => return ([], args)
    | ('-' :: c :: cs) :: args => do
      let (letters, args) ← readLetters flags valued args (c :: cs)
      let (more, args) ← readOptionSteps flags valued steps args
      return (letters ++ more, args)
    | args => return ([], args)

/-- The options in front of the arguments of a command, of which some take a
value. -/
def readOptions (flags valued : List Char) (args : List Raw) : Run m Letters :=
  readOptionSteps flags valued args.length args

/-- A value between quotes, from which the shell can read it again. -/
def requoted (value : Raw) : Raw :=
  let rec inside : Raw → Raw
    | [] => ['\x27']
    | '\x27' :: cs => "'\x22'\x22'".toList ++ inside cs
    | c :: cs => c :: inside cs
  '\x27' :: inside value

/-- Shows the variables of a kind by increasing name, each after a word. -/
def showVariables (word : String) (kind : Variable → Bool) : Run m Nat := do
  let vars := (← get).vars.filter fun entry => kind entry.2
  let vars := vars.mergeSort fun a b => Text.notAfter a.1 b.1
  let front := if word.isEmpty then [] else word.toList ++ [' ']
  let lines := vars.map fun (name, variable_) =>
    match variable_.value with
    | some value => front ++ name ++ '=' :: requoted value ++ ['\n']
    | none => if word.isEmpty then [] else front ++ name ++ ['\n']
  emit lines.flatten

def checkName (name : Raw) : Run m Unit := do
  if !isName name then fail (name ++ ": bad variable name".toList)

/-- The name in front of an equals sign, and the value after it if there is
one. -/
def nameAndValue (word : Raw) : Raw × Option Raw :=
  let name := word.takeWhile (· != '=')
  (name, if name.length < word.length then some (word.drop (name.length + 1)) else none)

/-- Marks variables, which may be given values, or shows those that are
marked. -/
def markVariables (word : String) (mark : Variable → Variable)
    (isMarked : Variable → Bool) : Builtin m :=
  fun args => do
    let (letters, args) ← readOptions ['p'] [] args
    if !letters.isEmpty || args.isEmpty then showVariables word isMarked
    else
      for arg in args do
        let (name, value) := nameAndValue arg
        checkName name
        match value with
        | some value => assign name value
        | none => pure ()
        changeVariable name mark
      return 0

def unset : Builtin m := fun args => do
  let (letters, names) ← readOptions ['v', 'f'] [] args
  let functions := letters.getLast?.map (·.1) == some 'f'
  for name in names do
    if functions then modify fun state =>
      { state with functions := state.functions.erase name }
    else
      checkName name
      match (← get).vars.lookup name with
      | some ⟨_, _, true⟩ => fail (name ++ ": is read only".toList)
      | _ => modify fun state => { state with vars := state.vars.erase name }
  return 0

def makeLocal : Builtin m := fun args => do
  if (← get).locals.isEmpty then fail "not in a function".toList
  for arg in args do
    let (name, value) := nameAndValue arg
    if name != ['-'] then
      checkName name
      modify fun state =>
        match state.locals with
        | [] => state
        | frame :: frames =>
          if (frame.lookup name).isSome then state
          else { state with locals := ((name, state.vars.lookup name) :: frame) :: frames }
      match value with
      | some value => assign name value
      | none => pure ()
  return 0

def echo : Builtin m := fun args =>
  emit (echoed args)

def printf : Builtin m := fun args => do
  let (_, args) ← readOptions [] [] args
  match args with
  | [] => fail "usage: printf format [arg ...]".toList
  | format :: words =>
    let draft := formatRules.apply format words
    for complaint in draft.complaints.reverse do complain complaint
    let status ← emit draft.written.reverse
    match draft.stopped with
    | some (some fault) => fail fault
    | _ => return if draft.complaints.isEmpty then status else 1

def test : Builtin m := fun args => do
  return if ← condition (args.length + 1) args then 0 else 1

def bracket : Builtin m := fun args => do
  if args.getLast? != some [']'] then fail "missing ]".toList
  test args.dropLast

def shift : Builtin m := fun args => do
  let count ← match args with
    | [] => pure 1
    | arg :: _ => countOf arg
  let state ← get
  if state.params.length < count then fail "can't shift that many".toList
  set { state with params := state.params.drop count, letterAt := none }
  return 0

/-- A character of a line that is read, and whether it stands for itself. -/
abbrev LineChar := Char × Bool

/-- The next line of a text, what follows it, and whether it has an end. A
backslash makes the character after it stand for itself, and joins lines. -/
def inputLine (isRaw : Bool) : Raw → List LineChar × Raw × Bool
  | [] => ([], [], false)
  | '\n' :: rest => ([], rest, true)
  | '\x00' :: rest => inputLine isRaw rest
  | c :: rest =>
    if c == '\x5c' && !isRaw then
      match rest with
      | [] => ([], [], false)
      | '\n' :: rest => inputLine isRaw rest
      | d :: rest =>
        let (line, after, ended) := inputLine isRaw rest
        ((d, true) :: line, after, ended)
    else
      let (line, after, ended) := inputLine isRaw rest
      ((c, false) :: line, after, ended)

def dividesAsBlank (separators : Raw) (c : LineChar) : Bool :=
  !c.2 && separators.contains c.1 && (c.1 == ' ' || c.1 == '\t' || c.1 == '\n')

def divides (separators : Raw) (c : LineChar) : Bool :=
  !c.2 && separators.contains c.1

/-- A line without what divides fields at its beginning: blanks, and one
other character among them. -/
def skipDivider (separators : Raw) (line : List LineChar) : List LineChar :=
  match line.dropWhile (dividesAsBlank separators) with
  | c :: rest =>
    if divides separators c then rest.dropWhile (dividesAsBlank separators) else c :: rest
  | [] => []

/-- The fields of a line for so many names, the last of which takes all that
is left. -/
def lineFields (separators : Raw) : Nat → List LineChar → List Raw
  | 0, _ => []
  | 1, line =>
    let field := line.takeWhile fun c => !divides separators c
    let rest := line.drop field.length
    if (skipDivider separators rest).isEmpty then [field.map (·.1)]
    else [((line.reverse.dropWhile (dividesAsBlank separators)).reverse).map (·.1)]
  | count + 1, line =>
    let field := line.takeWhile fun c => !divides separators c
    field.map (·.1) ::
      lineFields separators count (skipDivider separators (line.drop field.length))

def readVariables : Builtin m := fun args => do
  let (letters, names) ← readOptions ['r'] ['p'] args
  if names.isEmpty then fail "arg count".toList
  let input ← readAll 0
  let (line, rest, ended) := inputLine (letters.any (·.1 == 'r')) input
  unread 0 rest
  let separators ← separators
  let values :=
    lineFields separators names.length (line.dropWhile (dividesAsBlank separators))
  for (name, value) in names.zip values do assignNamed name value
  return if ended then 0 else 1

def optionNames : List (Char × String) :=
  [('e', "errexit"), ('f', "noglob"), ('I', "ignoreeof"), ('i', "interactive"),
    ('m', "monitor"), ('n', "noexec"), ('s', "stdin"), ('x', "xtrace"), ('v', "verbose"),
    ('V', "vi"), ('E', "emacs"), ('C', "noclobber"), ('a', "allexport"), ('b', "notify"),
    ('u', "nounset"), ('p', "privileged"), ('0', "nolog"), ('1', "debug")]

def setOption (letter : Char) (value : Bool) : Run m Unit :=
  modify fun state =>
    let others := state.options.filter (· != letter)
    { state with options := if value then letter :: others else others }

def showOptions (value : Bool) : Run m Unit := do
  let options := (← get).options
  let line (option : Char × String) : Raw :=
    let isSet := options.contains option.1
    if value then
      (option.2 ++ String.ofList (List.replicate (16 - option.2.length) ' ')).toList ++
        (if isSet then "on\n" else "off\n").toList
    else ((if isSet then "set -o " else "set +o ") ++ option.2 ++ "\n").toList
  let front := if value then "Current option settings\n".toList else []
  let _ ← emit (front ++ optionNames.flatMap line)

/-- Sets the options whose letters stand together. On the command line of
the shell one more letter tells that the script is an argument; gives
whether it was there. -/
def setLetters (onCommandLine value : Bool) (args : List Raw) : Raw → Run m (Bool × List Raw)
  | [] => return (false, args)
  | c :: cs => do
    if onCommandLine && c == 'c' then
      let (_, args) ← setLetters onCommandLine value args cs
      return (true, args)
    else if onCommandLine && c == 'l' then setLetters onCommandLine value args cs
    else if c == 'o' then
      match args with
      | [] =>
        showOptions value
        setLetters onCommandLine value [] cs
      | name :: args =>
        match optionNames.find? fun option => option.2.toList == name with
        | some option =>
          setOption option.1 value
          setLetters onCommandLine value args cs
        | none => fail ("Illegal option -o ".toList ++ name)
    else if optionNames.any fun option => option.1 == c && c.isAlpha then
      setOption c value
      setLetters onCommandLine value args cs
    else fail ("Illegal option -".toList ++ [c])

/-- Sets the options in front of some arguments; gives whether the script is
an argument, and the arguments that are left. The number of arguments is
enough of steps. -/
def setOptions (onCommandLine : Bool) : Nat → List Raw → Run m (Bool × List Raw)
  | 0, args => return (false, args)
  | steps + 1, args =>
    match args with
    | ['-'] :: args => do
      if !onCommandLine then
        setOption 'x' false
        setOption 'v' false
      return (false, args)
    | ['-', '-'] :: args => do
      if !onCommandLine && args.isEmpty then modify fun state =>
        { state with params := [], letterAt := none }
      return (false, args)
    | (sign :: letters) :: rest => do
      if sign == '-' || sign == '+' then
        let (here, rest) ← setLetters onCommandLine (sign == '-') rest letters
        let (later, rest) ← setOptions onCommandLine steps rest
        return (here || later, rest)
      else return (false, args)
    | args => return (false, args)

def setAll : Builtin m := fun args => do
  if args.isEmpty then showVariables "" fun variable_ => variable_.value.isSome
  else
    let (_, rest) ← setOptions false args.length args
    if !rest.isEmpty then modify fun state => { state with params := rest, letterAt := none }
    return 0

def exit : Builtin m := fun args => do
  match args with
  | [] => pure ()
  | arg :: _ => setStatus ((← countOf arg) % 256)
  throw .exit

def giveBack : Builtin m := fun args => do
  match args with
  | [] => pure ()
  | arg :: _ => setStatus (← countOf arg)
  throw .back

def leaveLoops (again : Bool) : Builtin m := fun args => do
  let count ← match args with
    | [] => pure 1
    | arg :: _ =>
      let count ← countOf arg
      if count = 0 then badNumber arg
      pure count
  let count := min count (← get).loops
  if count = 0 then return 0
  setStatus 0
  throw (.leave count again)

def placeText : Run m Raw := do
  let place := (← get).place
  if place.isEmpty then return ('/' :: (Path.join Files.workPlace).toList)
    else return Text.raw place

def changePlace : Builtin m := fun args => do
  let (_, args) ← readOptions ['L', 'P'] [] args
  let (target, shown) ← match args with
    | [] => pure ((← valueOf? "HOME".toList).getD [], false)
    | ['-'] :: _ => pure ((← valueOf? "OLDPWD".toList).getD (← placeText), true)
    | target :: _ => pure (target, false)
  if target.isEmpty then return 0
  let here ← placeText
  let full := if target.head? == some '/' then target else here ++ '/' :: target
  let steps := ((Path.ofString (pathOf full)).fromRoot).getD []
  let place := "/" ++ Path.join steps
  match ← onHost fun host => host.read place with
  | .error .isDirectory =>
    modify fun state => { state with place := place }
    assign "OLDPWD".toList here
    assign "PWD".toList (Text.raw place)
    if shown then emit (Text.raw place ++ ['\n']) else return 0
  | _ => fail ("can't cd to ".toList ++ target)

def showPlace : Builtin m := fun args => do
  let _ ← readOptions ['L', 'P'] [] args
  emit ((← placeText) ++ ['\n'])

/-- The next letter of parameters that are read letter by letter: the
letter, its value if there is one, where reading goes on, and a complaint. -/
structure NextLetter where
  letter : Char
  value : Option Raw
  index : Nat
  offset : Option Nat
  complaint : Option Raw
  ended : Bool

/-- The next letter, given the letters that there are, the parameters and
where reading stands. -/
def nextLetter (letters : Raw) (params : List Raw) (index : Nat) (offset : Option Nat) :
    NextLetter :=
  let silent := letters.head? == some ':'
  let current := match offset with
    | some at_ => if index ≤ 1 then [] else ((params[index - 2]?).getD []).drop at_
    | none => []
  let atEnd (index : Nat) : NextLetter := ⟨'?', none, index, none, none, true⟩
  let take (cs : Raw) (index : Nat) : NextLetter :=
    match cs with
    | [] => atEnd index
    | c :: rest =>
      let word := (params[index - 2]?).getD []
      let offset := if rest.isEmpty then none else some (word.length - rest.length)
      let place := letters.dropWhile (· != c)
      if place.isEmpty || c == ':' then
        if silent then ⟨'?', some [c], index, offset, none, false⟩
        else ⟨'?', none, index, offset, some ("Illegal option -".toList ++ [c, '\n']), false⟩
      else if place.drop 1 |>.head? |> (· == some ':') then
        if !rest.isEmpty then ⟨c, some rest, index, none, none, false⟩
        else
          match params[index - 1]? with
          | some value => ⟨c, some value, index + 1, none, none, false⟩
          | none =>
            if silent then ⟨':', some [c], index, none, none, false⟩
            else ⟨'?', none, index, none,
              some ("No arg for -".toList ++ c :: " option\n".toList), false⟩
      else ⟨c, some [], index, offset, none, false⟩
  if !current.isEmpty then take current index
  else
    match params[index - 1]? with
    | some ['-', '-'] => atEnd (index + 1)
    | some ('-' :: c :: cs) => take (c :: cs) (index + 1)
    | _ => atEnd index

/-- Reads the next letter of the parameters, or of other words, into a
variable. -/
def readLetter : Builtin m := fun args => do
  match args with
  | letters :: name :: words =>
    let state ← get
    let params := if words.isEmpty then state.params else words
    let index := (((← valueOf? "OPTIND".toList).bind Text.wholeNumber?).getD 1).toNat
    let next := nextLetter letters params (max index 1) state.letterAt
    match next.complaint with
    | some text =>
      let _ ← write 2 text
    | none => pure ()
    match next.value with
    | some value => assign "OPTARG".toList value
    | none => if !next.ended then
        modify fun state => { state with vars := state.vars.erase "OPTARG".toList }
    assign "OPTIND".toList (toString next.index).toList
    modify fun state => { state with letterAt := next.offset }
    assignNamed name [next.letter]
    return if next.ended then 1 else 0
  | _ => fail "Usage: getopts optstring var [arg...]".toList

def signalNames : List String :=
  ["EXIT", "HUP", "INT", "QUIT", "ILL", "TRAP", "ABRT", "BUS", "FPE", "KILL", "USR1", "SEGV",
    "USR2", "PIPE", "ALRM", "TERM", "STKFLT", "CHLD", "CONT", "STOP", "TSTP", "TTIN", "TTOU",
    "URG", "XCPU", "XFSZ", "VTALRM", "PROF", "WINCH", "IO", "PWR", "SYS"]

def signal? (word : Raw) : Option Nat :=
  if !word.isEmpty && word.all Char.isDigit then
    if Text.decimal word < 65 then some (Text.decimal word) else none
  else
    let name := String.ofList (word.map Char.toUpper)
    let index := signalNames.findIdx (· == name)
    if index < signalNames.length then some index else none

def setTraps : Builtin m := fun args => do
  let (_, args) ← readOptions [] [] args
  match args with
  | [] =>
    let traps := (← get).traps.mergeSort fun a b => a.1 ≤ b.1
    emit (traps.flatMap fun (signal, action) =>
      "trap -- ".toList ++ requoted action ++ ' ' ::
        (signalNames[signal]?.getD (toString signal)).toList ++ ['\n'])
  | first :: rest =>
    let isReset := rest.isEmpty || (first.all Char.isDigit && (signal? first).isSome)
    let (action, names) := if isReset then (none, args)
      else if first == ['-'] then (none, rest) else (some first, rest)
    let rec setEach : List Raw → Run m Nat
      | [] => return 0
      | name :: names => do
        match signal? name with
        | none =>
          let _ ← write 2 ("trap: ".toList ++ name ++ ": bad trap\n".toList)
          return 1
        | some signal =>
          modify fun state =>
            let others := state.traps.filter fun trap => trap.1 != signal
            { state with traps := match action with
              | some action => (signal, action) :: others
              | none => others }
          setEach names
    setEach names

def waitFor : Builtin m := fun args => do
  let (_, args) ← readOptions [] [] args
  match args.getLast? with
  | none => return 0
  | some _ =>
    for arg in args do
      let _ ← countOf arg
    return 127

/-- Shows or sets which permissions new files lack, which nothing here
depends on. -/
def mask : Builtin m := fun args =>
  match args with
  | [] => emit "0022\n".toList
  | _ => return 0

def builtins : List (String × Builtin m) := [
  (":", fun _ => return 0), ("true", fun _ => return 0), ("false", fun _ => return 1),
  ("echo", echo), ("printf", printf), ("test", test), ("[", bracket), ("read", readVariables),
  ("export", markVariables "export" (fun before =>
    { before with exported := true }) (·.exported)),
  ("readonly", markVariables "readonly" (fun before =>
    { before with locked := true }) (·.locked)),
  ("unset", unset), ("local", makeLocal), ("shift", shift), ("set", setAll), ("exit", exit),
  ("return", giveBack),
  ("break", leaveLoops false), ("continue", leaveLoops true), ("cd", changePlace),
  ("chdir", changePlace),
  ("pwd", showPlace), ("getopts", readLetter), ("trap", setTraps), ("wait", waitFor),
  ("umask", mask),
  ("times", fun _ => emit "0m0.000000s 0m0.000000s\n0m0.000000s 0m0.000000s\n".toList),
  ("ulimit", fun _ => emit "unlimited\n".toList), ("hash", fun _ => return 0),
  ("jobs", fun _ => return 0),
  ("fg", fun _ => fail "No current job".toList),
  ("bg", fun _ => fail "No current job".toList)]

end

end Xdr.Shell
