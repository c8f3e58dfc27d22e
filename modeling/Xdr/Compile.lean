import Xdr.Decl.Reader
import Xdr.Emit.Module
import Xdr.Filter.Basic
import Xdr.Report

/-!
# Compilation

From the text of an interface definition to tokens, declarations, a bundle
or emitted code.
-/

namespace Xdr.Compile

/-- What a compilation depends on beside the text. -/
structure Options where
  defines : List Define
  emit : Emit.Options
  deriving DecidableEq, Repr

/-- The stage at which a text is rejected. -/
inductive Stage where
  | lexical
  | syntactic
  deriving DecidableEq, Repr

namespace Stage

/-- The name of a stage. -/
def text : Stage → String
  | .lexical => "lexical analysis"
  | .syntactic => "parsing"

/-- The kind of fault that a stage reports. -/
def faultKind : Stage → String
  | .lexical => "lexical error"
  | .syntactic => "syntax error"

end Stage

/-- Why a text could not be compiled. -/
inductive Failure where
  /-- The text has faults, which the report tells. -/
  | rejected (stage : Stage) (report : String)
  /-- The bundle has no emitted form. -/
  | emission (error : EmitError)
  /-- The filter gave no text. -/
  | filtering (error : FilterError)
  deriving DecidableEq, Repr

namespace Failure

/-- The message of a failure. -/
def message : Failure → String
  | .rejected _ report => report
  | .emission _ => "Code generation failed"
  | .filtering _ => "Preprocessing failed"

end Failure

/-- The text that is compiled: what a filter, which is told the definitions,
makes of the given one. -/
def prepare {m : Type → Type} [Monad m] (commands : Commands m) (options : Options)
    (filter : Option Filter) (text : String) : m Filtered :=
  match filter with
  | none => return ⟨.ok text, []⟩
  | some filter => (filter.defineAll options.defines).run commands text

/-- The rejection of a source for some faults. -/
def reject (stage : Stage) (source : Source) (faults : List Fault) : Failure :=
  .rejected stage (Report.text stage.faultKind source.reached faults)

/-- The stage of a parse failure. -/
def stageOf : ParseFailure → Stage
  | .lexical _ => .lexical
  | .syntactic _ => .syntactic

/-- The tokens of a text, in the light of the definitions alone. -/
def tokens (options : Options) (name text : String) : Except Failure (List (Located Token)) :=
  let source := Source.ofText name text
  let scanner := Scanner.ofSource source (Symbols.ofDefines options.defines)
  scanner.exhaust.mapError fun errors =>
    reject .lexical source (ParseFailure.lexical errors).faults

/-- The declarations of a text. -/
def parse (options : Options) (name text : String) : Except Failure Parsed :=
  let source := Source.ofText name text
  (Decl.parse (Symbols.ofDefines options.defines) source).mapError fun failure =>
    reject (stageOf failure) source failure.faults

/-- The bundle of a text. -/
def bundle (options : Options) (name text : String) : Except Failure Bundle := do
  let parsed ← parse options name text
  return Bundle.ofDecls parsed.decls options.defines

/-- The emitted code of a text. -/
def code (options : Options) (name text : String) : Except Failure String := do
  let bundle ← bundle options name text
  (Emit.generate options.emit bundle).mapError .emission

/-- Writes the emitted code of a text to a sink. -/
def codeOn {σ : Type} (sink : Sink σ) (options : Options) (name text : String) (state : σ) :
    σ × Option Failure :=
  match bundle options name text with
  | .error failure => (state, some failure)
  | .ok bundle =>
    let (next, failure) := Emit.generateOn sink options.emit bundle state
    (next, failure.map .emission)

end Xdr.Compile
