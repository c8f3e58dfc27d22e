import Xdr.Bundle.Dump
import Xdr.CommandLine.Arguments
import Xdr.Compile
import Xdr.Json.Writer
import Xdr.Text.Raw

/-!
# Running a command line

What the command shows and leaves behind, for its arguments, its input and
the files it finds.

## Design Notes

The definitions are read first, then the input; then the output file is made
empty, and only then is the source filtered and compiled. So a source that
is rejected leaves an empty output file. A fault of the source is shown as
its report; any other failure as a message with its causes below. What the
filter complained about stands in front of either.

The output goes through a buffer. Emitted code leaves it at once, while a
dump does so when the buffer is full or at the end, and a device that takes
nothing is noticed only then.
-/

namespace Xdr.CommandLine

/-- The exit code of a wrong use. -/
def misuseCode : Nat := 2

/-- The exit code of a failure. -/
def failureCode : Nat := 1

/-- The answer to the question for the version. -/
def versionText : String := "xdrgen 1.0.0\n"

/-- How the command is used. -/
def helpText : String :=
  "xdrgen 1.0.0\n" ++
  "Compiles XDR/ONC-RPC interface definitions to Rust\n\n" ++
  "USAGE:\n    xdrgen [OPTIONS] [INPUT]\n\n" ++
  "ARGS:\n    <INPUT>    Interface definition file ('-' or absent for stdin)\n\n" ++
  "OPTIONS:\n" ++
  "        --cpp                      Run the source through the C preprocessor first\n" ++
  "        --cpp-command <COMMAND>    Preprocessor to run instead of 'cpp -P'\n" ++
  "    -D, --define <NAME[=VALUE]>    Define a constant before parsing starts\n" ++
  "    -h, --help                     Print help information\n" ++
  "    -m, --mode <mode>              Stop after the given stage and dump its output [default: generate]\n" ++
  "                                   [possible values: lex, parse, ir, generate]\n" ++
  "        --no-structural            Do not emit structural (JSON) conversions\n" ++
  "    -o, --output <FILE>            Output file (stdout if absent)\n" ++
  "        --standalone               Emit inner attributes, for a module of its own\n" ++
  "    -v                             Increase log verbosity\n" ++
  "    -V, --version                  Print version information\n"

/-- What is shown for a wrong use. -/
def misuseText : String :=
  "error: The arguments were not understood\n\nUSAGE:\n    xdrgen [OPTIONS] [INPUT]\n\n" ++
  "For more information try --help\n"

/-- What a run shows. -/
structure Outcome where
  exitCode : Nat
  output : String
  errors : String
  deriving DecidableEq, Repr

/-- Why a run ended without its result. -/
inductive Failure where
  /-- A definition is none. -/
  | badDefine (text : String) (cause : DefineError)
  /-- The command of the filter has no word. -/
  | emptyFilter
  /-- The standard input is no text. -/
  | unreadableInput
  /-- The input file cannot be read. -/
  | unreadableFile (path : String) (cause : HostError)
  /-- The output file cannot be opened. -/
  | unwritableFile (path : String) (cause : HostError)
  /-- The source of the given name cannot be compiled. -/
  | compilation (name : String) (cause : Compile.Failure)
  /-- The emitted code of the source cannot be written. -/
  | unwrittenCode (name : String) (cause : HostError)
  /-- The dump of the source cannot be written. -/
  | unwrittenDump (name : String) (cause : HostError)
  /-- The end of the output cannot be written. -/
  | unwrittenEnd (cause : HostError)
  deriving DecidableEq, Repr

/-- The causes of a filter's failure, the failure itself first. -/
def filterCauses (error : FilterError) : List String :=
  error.message ::
    match error with
    | .refused cause => [cause.message]
    | .notUtf8 output => (Text.utf8Fault? output).toList.map (·.message)
    | _ => []

namespace Failure

/-- The message of a failure. -/
def message : Failure → String
  | .badDefine text _ => "Bad define: " ++ text
  | .emptyFilter => "Empty preprocessor command"
  | .unreadableInput => "Failed to read from stdin"
  | .unreadableFile path _ => "Failed to read: " ++ path
  | .unwritableFile path _ => "Failed to open for writing: " ++ path
  | .compilation name _ => "Failed to compile " ++ name
  | .unwrittenCode name _ => "Failed to compile " ++ name
  | .unwrittenDump name _ => "Failed to compile " ++ name
  | .unwrittenEnd _ => "Failed to flush output"

/-- What led to a failure, the nearest cause first. -/
def causes : Failure → List String
  | .badDefine _ cause => [cause.message]
  | .emptyFilter => []
  | .unreadableInput => [HostError.notText.message]
  | .unreadableFile _ cause => [cause.message]
  | .unwritableFile _ cause => [cause.message]
  | .compilation _ cause =>
    cause.message ::
      match cause with
      | .rejected .. => []
      | .emission error => [error.message]
      | .filtering error => filterCauses error
  | .unwrittenCode _ cause =>
    let error := EmitError.unwritable
    [(Compile.Failure.emission error).message, error.message, cause.message]
  | .unwrittenDump _ cause => [EmitError.unwritable.message, cause.message]
  | .unwrittenEnd cause => [cause.message]

/-- A list of causes, which are numbered if there are several. -/
def causesText : List String → String
  | [] => ""
  | [cause] => s!"\nCaused by:\n    {cause}\n"
  | causes =>
    "\nCaused by:\n" ++ String.join (causes.mapIdx fun index cause =>
      s!"    {index}: {cause}\n")

/-- What is shown of a failure: the report of a rejected source, or the
message and its causes. -/
def text (failure : Failure) : String :=
  match failure with
  | .compilation _ (.rejected _ report) => report
  | _ => s!"Error: {failure.message}\n" ++ causesText failure.causes

end Failure

/-- The definitions with the given texts, or the first text that is none. -/
def readDefines (texts : List String) : Except Failure (List Define) :=
  texts.mapM fun text => (Define.parse text).mapError (.badDefine text)

/-- The filter with the given command, whose words blanks divide. -/
def readFilter : Option (Option String) → Except Failure (Option Filter)
  | none => .ok none
  | some none => .ok (some .standard)
  | some (some command) =>
    match (Text.fields command.toList).map String.ofList with
    | [] => .error .emptyFilter
    | name :: args => .ok (some ⟨name, args⟩)

/-- What the source is compiled with, and the filter that it goes through. -/
def readOptions (invocation : Invocation) :
    Except Failure (Compile.Options × Option Filter) := do
  let defines ← readDefines invocation.defines
  let filter ← readFilter invocation.filter
  return (⟨defines, ⟨invocation.standalone, invocation.structural⟩⟩, filter)

/-- Where a source comes from. -/
inductive Origin where
  | input
  | file (path : String)
  deriving DecidableEq, Repr

/-- The origin that a setting names: a dash stands for the standard input. -/
def Origin.of : Option String → Origin
  | none => .input
  | some path => if path == "-" then .input else .file path

/-- Where a result goes to. -/
inductive Target where
  | output
  | errors
  /-- The standard input, which nobody reads after the command. -/
  | input
  | file (path : String)
  deriving DecidableEq, Repr

/-- The target that a setting names: a dash stands for the standard output,
and the open streams have paths. -/
def Target.of : Option String → Target
  | none => .output
  | some path =>
    if path == "-" then .output
    else
      match (Path.ofString path).streamNumber? with
      | some 0 => .input
      | some 1 => .output
      | some 2 => .errors
      | _ => .file path

/-- The text that some bytes are. -/
def readText (bytes : List UInt8) : Except HostError String :=
  match Text.ofUtf8? bytes with
  | some text => .ok text
  | none => .error .notText

section

variable {m : Type → Type} [Monad m]

/-- The content of a file, which may be the standard input under its path. -/
def readFile (host : Host m) (path : String) : m (Except HostError (List UInt8)) := do
  if (Path.ofString path).streamNumber? == some 0 then return .ok (← host.input)
    else host.read path

/-- The name of the source and its text. -/
def readSource (host : Host m) (invocation : Invocation) :
    m (Except Failure (String × String)) := do
  match Origin.of invocation.input with
  | .input =>
    return ((readText (← host.input)).map ("<stdin>", ·)).mapError fun _ => .unreadableInput
  | .file path =>
    let text := (← readFile host path) >>= readText
    return (text.map (path, ·)).mapError (.unreadableFile path)

end

/-- A token on a line, after its place. -/
def tokenLine (name : String) (token : Located Token) : String :=
  token.span.text name ++ "\t" ++ token.value.text ++ "\n"

/-- What a source declares, as JSON. -/
def dump (parsed : Parsed) : Json :=
  .object [
    ("declarations", .array (parsed.decls.map Decl.toJson)),
    ("constants", parsed.symbols.constantsJson)]

/-- The result of a stage as a text. -/
def render (mode : Mode) (options : Compile.Options) (name text : String) :
    Except Compile.Failure String :=
  match mode with
  | .lex => do
    let tokens ← Compile.tokens options name text
    return String.join (tokens.map (tokenLine name))
  | .parse => do
    let parsed ← Compile.parse options name text
    return (dump parsed).pretty ++ "\n"
  | .bundle => do
    let bundle ← Compile.bundle options name text
    return bundle.toJson.pretty ++ "\n"
  | .generate => Compile.code options name text

/-- The outcome of a failure, after some complaints. -/
def fail (complaints : String) (failure : Failure) : Outcome :=
  ⟨failureCode, "", complaints ++ failure.text⟩

/-- How many bytes the buffer of the output holds. -/
def bufferSize : Nat := 8192

/-- The failure of a target that does not take the result of a stage. -/
def unwritten (mode : Mode) (name : String) (size : Nat) (cause : HostError) : Failure :=
  if mode = .generate then .unwrittenCode name cause
  else if bufferSize < size then .unwrittenDump name cause
  else .unwrittenEnd cause

section

variable {m : Type → Type} [Monad m]

/-- Makes a target empty, if it is a file. -/
def Target.clear (host : Host m) : Target → m (Except Failure Unit)
  | .file path => do return (← host.write path []).mapError (.unwritableFile path)
  | _ => return .ok ()

/-- The outcome of a result that goes to a target, after some complaints. -/
def deliver (host : Host m) (target : Target) (mode : Mode) (name complaints text : String) :
    m Outcome := do
  match target with
  | .output => return ⟨0, text, complaints⟩
  | .errors => return ⟨0, "", complaints ++ text⟩
  | .input => return ⟨0, "", complaints⟩
  | .file path =>
    let bytes := Text.utf8 text
    match ← host.write path bytes with
    | .ok () => return ⟨0, "", complaints⟩
    | .error cause => return fail complaints (unwritten mode name bytes.length cause)

/-- The outcome of a source that is filtered and compiled. -/
def compile (commands : Commands m) (host : Host m) (mode : Mode) (options : Compile.Options)
    (filter : Option Filter) (target : Target) (name text : String) : m Outcome := do
  let filtered ← Compile.prepare commands options filter text
  let complaints := Text.decode filtered.complaints
  match (filtered.result.mapError .filtering) >>= render mode options name with
  | .error error => return fail complaints (.compilation name error)
  | .ok result => deliver host target mode name complaints result

/-- The outcome of an invocation. -/
def perform (commands : Commands m) (host : Host m) (invocation : Invocation) :
    m Outcome := do
  match readOptions invocation with
  | .error failure => return fail "" failure
  | .ok (options, filter) =>
    match ← readSource host invocation with
    | .error failure => return fail "" failure
    | .ok (name, text) =>
      let target := Target.of invocation.output
      match ← target.clear host with
      | .error failure => return fail "" failure
      | .ok () => compile commands host invocation.mode options filter target name text

/-- The outcome of some arguments on a host that starts commands. -/
def runOn (commands : Commands m) (host : Host m) (args : List String) : m Outcome :=
  match Invocation.ofArgs args with
  | .ok invocation => perform commands host invocation
  | .error .misuse => return ⟨misuseCode, "", misuseText⟩
  | .error .version => return ⟨0, versionText, ""⟩
  | .error .help => return ⟨0, helpText, ""⟩

end

/-- The outcome of some arguments, for an input and some files, and the
files afterwards. -/
def run (commands : Commands (StateM Files)) (args : List String) (input : List UInt8)
    (files : Files) : Outcome × Files :=
  (runOn commands (Host.ofFiles input) args).run files

end Xdr.CommandLine
