/-!
# Arguments

What the words after a command's name ask for.

## Design Notes

Arguments are first divided into occurrences of options, flags and inputs,
from left to right, and then checked as a whole. So a question for the
version is answered wherever it stands in front of the first word that
cannot be understood, even if an option before it lacks its value.
-/

namespace Xdr.CommandLine

/-- The stage whose result is wanted. -/
inductive Mode where
  | lex
  | parse
  | bundle
  | generate
  deriving DecidableEq, Repr

/-- The mode with the given name. -/
def Mode.ofName? : String → Option Mode
  | "lex" => some .lex
  | "parse" => some .parse
  | "ir" => some .bundle
  | "generate" => some .generate
  | _ => none

/-- An option that takes a value. -/
inductive Setting where
  | mode
  | define
  | filter
  | output
  deriving DecidableEq, Repr

/-- An option without a value. -/
inductive Flag where
  | filtered
  | standalone
  | plain
  | verbose
  deriving DecidableEq, Repr

/-- Why nothing is to be done. -/
inductive Stop where
  | misuse
  | version
  | help
  deriving DecidableEq, Repr

/-- One thing that the arguments give; a setting may lack its value. -/
inductive Occurrence where
  | setting (setting : Setting) (value : Option String)
  | flag (flag : Flag)
  | input (path : String)
  deriving DecidableEq, Repr

/-- The option with the given long name. -/
def longOption? : String → Option (Setting ⊕ Flag)
  | "mode" => some (.inl .mode)
  | "define" => some (.inl .define)
  | "cpp-command" => some (.inl .filter)
  | "output" => some (.inl .output)
  | "cpp" => some (.inr .filtered)
  | "standalone" => some (.inr .standalone)
  | "no-structural" => some (.inr .plain)
  | _ => none

/-- The setting with the given letter. -/
def letterSetting? : Char → Option Setting
  | 'm' => some .mode
  | 'D' => some .define
  | 'o' => some .output
  | _ => none

/-- What one word gives, and the setting whose value the next word may be. -/
abbrev Reading := Except Stop (List Occurrence × Option Setting)

/-- Reads a word of letters: flags, up to a setting whose value is the rest
of the word, if there is one. -/
def readLetters : List Char → Reading
  | [] => .ok ([], none)
  | c :: cs =>
    match letterSetting? c with
    | some setting =>
      match cs with
      | [] => .ok ([], some setting)
      | first :: rest =>
        let value := if first = '=' then rest else first :: rest
        .ok ([.setting setting (some (String.ofList value))], none)
    | none =>
      if c = 'V' then .error .version
      else if c = 'h' then .error .help
      else if c = 'v' then
        (readLetters cs).map fun (found, pending) => (.flag .verbose :: found, pending)
      else .error .misuse

/-- Reads a word with a long name, and the value after an equals sign, if
there is one. -/
def readLong (word : List Char) : Reading :=
  let name := String.ofList (word.takeWhile (· ≠ '='))
  match longOption? name, word.dropWhile (· ≠ '=') with
  | some (.inl setting), [] => .ok ([], some setting)
  | some (.inl setting), _ :: value =>
    .ok ([.setting setting (some (String.ofList value))], none)
  | some (.inr flag), [] => .ok ([.flag flag], none)
  | none, [] =>
    if name == "version" then .error .version
    else if name == "help" then .error .help
    else .error .misuse
  | _, _ => .error .misuse

/-- Reads a word that begins with a dash and is not a dash alone. -/
def readOption : List Char → Reading
  | '-' :: '-' :: word => readLong word
  | _ :: letters => readLetters letters
  | [] => .ok ([], none)

/-- Whether a word is an option: a dash alone is none. -/
def isOption (word : String) : Bool :=
  match word.toList with
  | '-' :: _ :: _ => true
  | _ => false

/-- The setting that got no value. -/
def unset (pending : Option Setting) : List Occurrence :=
  pending.toList.map fun setting => .setting setting none

/-- The words after the one that ends the options: at most one input, and
none if there was one before. -/
def readInputs (seen : Bool) : List String → Except Stop (List Occurrence)
  | [] => .ok []
  | [path] => if seen then .error .misuse else .ok [.input path]
  | _ => .error .misuse

/-- Divides the arguments into occurrences. A setting may wait for its
value, and an input may have been seen. -/
def divide : Option Setting → Bool → List String → Except Stop (List Occurrence)
  | pending, _, [] => .ok (unset pending)
  | pending, seen, word :: words =>
    if word == "--" then (readInputs seen words).map (unset pending ++ ·)
    else if isOption word then do
      let (found, next) ← readOption word.toList
      return unset pending ++ found ++ (← divide next seen words)
    else
      match pending with
      | some setting => (divide none seen words).map (.setting setting (some word) :: ·)
      | none =>
        if seen then .error .misuse else (divide none true words).map (.input word :: ·)

/-- What is asked for. -/
structure Invocation where
  mode : Mode
  defines : List String
  /-- Whether the source goes through a filter, and the command if one is
  given. -/
  filter : Option (Option String)
  output : Option String
  input : Option String
  standalone : Bool
  structural : Bool
  deriving DecidableEq, Repr

/-- The values given to a setting, in order. -/
def valuesOf (setting : Setting) (found : List Occurrence) : List (Option String) :=
  found.filterMap fun
    | .setting other value => if other = setting then some value else none
    | _ => none

/-- The only value given to a setting, if there is one. -/
def onlyValue (setting : Setting) (found : List Occurrence) : Except Stop (Option String) :=
  match valuesOf setting found with
  | [] => .ok none
  | [some value] => .ok (some value)
  | _ => .error .misuse

/-- The values given to a setting, of which one may not be lacking if the
setting is given at all. -/
def allValues (setting : Setting) (found : List Occurrence) : Except Stop (List String) :=
  let values := valuesOf setting found
  let given := values.filterMap id
  if given.isEmpty && !values.isEmpty then .error .misuse else .ok given

/-- Whether a flag is given, which may be so once. -/
def isGiven (flag : Flag) (found : List Occurrence) : Except Stop Bool :=
  match found.filter (· = .flag flag) with
  | [] => .ok false
  | [_] => .ok true
  | _ => .error .misuse

/-- The mode with the given name, or the usual one. -/
def modeOf : Option String → Except Stop Mode
  | none => .ok .generate
  | some name =>
    match Mode.ofName? name with
    | some mode => .ok mode
    | none => .error .misuse

/-- The filter, whose command may be given only if there is to be one. -/
def filterOf (filtered : Bool) (command : Option String) :
    Except Stop (Option (Option String)) :=
  if filtered then .ok (some command)
  else if command.isSome then .error .misuse
  else .ok none

/-- The input, if one is given. -/
def inputOf (found : List Occurrence) : Option String :=
  found.findSome? fun
    | .input path => some path
    | _ => none

namespace Invocation

/-- What the occurrences ask for, taken together. -/
def ofOccurrences (found : List Occurrence) : Except Stop Invocation := do
  let mode ← modeOf (← onlyValue .mode found)
  let defines ← allValues .define found
  let filter ← filterOf (← isGiven .filtered found) (← onlyValue .filter found)
  let output ← onlyValue .output found
  let standalone ← isGiven .standalone found
  let plain ← isGiven .plain found
  return ⟨mode, defines, filter, output, inputOf found, standalone, !plain⟩

/-- What some arguments ask for. -/
def ofArgs (args : List String) : Except Stop Invocation := do
  ofOccurrences (← divide none false args)

end Invocation
end Xdr.CommandLine
