import Xdr.Define
import Xdr.Files.Host
import Xdr.Text.Quoted

/-!
# Filters

A command that a source goes through before it is read.
-/

namespace Xdr

/-- A command with its arguments. -/
structure Filter where
  command : String
  args : List String
  deriving DecidableEq, Repr

/-- Why a filter gives no text. -/
inductive FilterError where
  /-- The command could not be started, or did not take its input. -/
  | refused (cause : HostError)
  /-- The command could not be connected to. -/
  | disconnected
  /-- The command did not end well. -/
  | failed (ending : Ending)
  /-- The output is not UTF-8. -/
  | notUtf8 (output : List UInt8)
  deriving DecidableEq, Repr

namespace FilterError

/-- The message of a filter error. -/
def message : FilterError → String
  | .refused _ => "I/O error"
  | .disconnected => "Failed to connect to the preprocessor's standard input"
  | .failed ending =>
    s!"Preprocessor exited with status code ExitStatus(unix_wait_status({ending.code}))"
  | .notUtf8 _ => "Preprocessor output is not valid UTF-8"

end FilterError

/-- What comes out of a filter: a text or the reason why there is none, and
complaints either way. -/
structure Filtered where
  result : Except FilterError String
  complaints : List UInt8

namespace Filter

/-- The standard preprocessor, without line markers. -/
def standard : Filter := ⟨"cpp", ["-P"]⟩

/-- Appends arguments. -/
def withArgs (filter : Filter) (args : List String) : Filter :=
  { filter with args := filter.args ++ args }

/-- Passes a definition on to the command. -/
def define (filter : Filter) (define : Define) : Filter :=
  filter.withArgs [s!"-D{define.name}={define.value.spelling}"]

/-- Passes definitions on to the command, in order. -/
def defineAll (filter : Filter) (defines : List Define) : Filter :=
  defines.foldl Filter.define filter

/-- A filter as it is shown to its user. -/
def describe (filter : Filter) : String :=
  "Preprocessor \x7b command: " ++ Text.quoteString filter.command ++ ", args: [" ++
    ", ".intercalate (filter.args.map Text.quoteString) ++ "] \x7d"

/-- The result of a command that has ended. How it ended comes first: an
input that it did not take matters only if it ended well. -/
def resultOf (process : Process) : Except FilterError String :=
  if !process.ending.isSuccess then .error (.failed process.ending)
  else
    match process.written with
    | .error error => .error (.refused error)
    | .ok () =>
      match Text.ofUtf8? process.output with
      | some text => .ok text
      | none => .error (.notUtf8 process.output)

/-- The filtered form of a text. -/
def run {m : Type → Type} [Monad m] (commands : Commands m) (filter : Filter)
    (text : String) : m Filtered := do
  match ← commands filter.command filter.args (Text.utf8 text) with
  | .error error => return ⟨.error (.refused error), []⟩
  | .ok process => return ⟨resultOf process, process.errors⟩

end Filter
end Xdr
