import Xdr.Emit.Enum
import Xdr.Emit.Program
import Xdr.Emit.Struct
import Xdr.Emit.Union

/-!
# Emitted modules

A whole bundle as a module of emitted code.

## Design Notes

`renderOn` writes each part as soon as it is known, so the parts before an
error stay. `generateOn` writes to a buffer first, and hands out nothing
unless everything could be emitted.
-/

namespace Xdr.Emit

/-- What to emit beside the wire form. -/
structure Options where
  /-- Attributes at the head of the module, for a module in a file of its
  own. -/
  inner : Bool
  /-- The structural form of every type. -/
  structural : Bool
  deriving DecidableEq, Repr

/-- The structural form, and no attributes. -/
def Options.standard : Options := ⟨false, true⟩

/-- The attribute at the head of a module in a file of its own. -/
def innerLine : String :=
  "#![allow(non_camel_case_types, non_snake_case, non_upper_case_globals, dead_code, unused_imports, " ++
    "clippy::all)]"

/-- The items of the runtime that the emitted form of a bundle uses, by
name. -/
def imports (options : Options) (bundle : Bundle) : List String :=
  let enums := !bundle.enums.isEmpty
  let structs := !bundle.structs.isEmpty
  let unions := !bundle.unions.isEmpty
  let typedefs := !bundle.typedefs.isEmpty
  let types := enums || structs || unions || typedefs
  let objects := structs || unions
  let entries : List (Bool × String) := [
    (types && options.structural && objects, "Map"),
    (types, "Packer"),
    (!bundle.programs.isEmpty, "Procedure"),
    (types && options.structural, "Structural"),
    (types, "Unpacker"),
    (types && options.structural, "Value"),
    (types, "Xdr"),
    (enums || unions, "XdrError"),
    (types && options.structural && objects, "structural")]
  (entries.filter Prod.fst).map Prod.snd

open Stroke

/-- The lines at the head of a module. -/
def headStrokes (inner : Bool) : List Stroke :=
  [.line "// @generated by xdrgen"] ++ (if inner then [.line innerLine] else []) ++ [.blank]

/-- The line that imports items of the runtime. -/
def importStrokes (items : List String) : List Stroke :=
  match items with
  | [] => []
  | [item] => [.line s!"use ::xdr_runtime::{item};", .blank]
  | items => [.line ("use ::xdr_runtime::\x7b" ++ ", ".intercalate items ++ "\x7d;"), .blank]

/-- The line of a constant. -/
def constText (bundle : Bundle) (decl : ConstDecl) : Except EmitError String :=
  (bundle.valueText decl.value "i64" decl.name).map fun value =>
    s!"pub const {decl.name}: i64 = {value};"

/-- An integer that is given by a name. -/
def isByName : IntExpr → Bool
  | .name _ => true
  | .literal _ => false

/-- The module of the constants, if there are any. -/
def constStrokes (bundle : Bundle) : List Stroke :=
  if bundle.consts.isEmpty then []
  else
    checkedStrokes (bundle.consts.mapM (constText bundle)) fun texts =>
      List.flatten [
        enter "pub mod constant",
        if bundle.consts.any fun decl => isByName decl.value then superStrokes else [],
        texts.map .line,
        leave, [.blank]]

/-- The parts of the emitted form of a bundle: the head, the imports, the
constants and one part for each declaration. -/
def moduleParts (options : Options) (bundle : Bundle) : List (List Stroke) :=
  [headStrokes options.inner, importStrokes (imports options bundle), constStrokes bundle] ++
    bundle.enums.map (fun decl =>
      checkedStrokes (enumPlan bundle decl) (enumStrokes options.structural)) ++
    bundle.structs.map (fun decl =>
      checkedStrokes (structPlan bundle decl) (structStrokes options.structural)) ++
    bundle.unions.map (fun decl =>
      checkedStrokes (unionPlan bundle decl) (unionStrokes options.structural)) ++
    bundle.typedefs.map (fun decl =>
      checkedStrokes (aliasPlan bundle decl) (aliasStrokes options.structural)) ++
    bundle.programs.map (programStrokes bundle)

/-- Emits a bundle. -/
def moduleStrokes (options : Options) (bundle : Bundle) : List Stroke :=
  (moduleParts options bundle).flatten

/-- The emitted text of a bundle up to the first error, and that error. -/
def render (options : Options) (bundle : Bundle) : String × Option EmitError :=
  let output := Stroke.print 0 (moduleStrokes options bundle)
  (Doc.text output.content, output.failure)

/-- The emitted text of a bundle, if it has one. -/
def generate (options : Options) (bundle : Bundle) : Except EmitError String :=
  match render options bundle with
  | (text, none) => .ok text
  | (_, some error) => .error error

section

variable {σ : Type}

/-- Writes the emitted text of a bundle to a sink, up to the first error. -/
def renderOn (sink : Sink σ) (options : Options) (bundle : Bundle) : Writing σ :=
  Stroke.write sink 0 (moduleStrokes options bundle)

/-- Writes the emitted text of a bundle to a sink, if it has one, and
flushes the sink. -/
def generateOn (sink : Sink σ) (options : Options) (bundle : Bundle) : Writing σ :=
  match renderOn .buffer options bundle [] with
  | (taken, none) => (Writing.bytes sink taken.reverse).andThen (.flush sink)
  | (_, some error) => .stop error

end

/-- What a destination in memory took, and why the writing stopped if it did
not finish. -/
def collected (writing : Writing (List UInt8)) : Output EmitError UInt8 :=
  let (taken, failure) := writing []
  ⟨taken.reverse, failure⟩

/-- What a limited destination takes of the rendered text of a bundle. -/
def renderTo (limit : Option Nat) (options : Options) (bundle : Bundle) :
    Output EmitError UInt8 :=
  collected (renderOn (.upTo limit) options bundle)

/-- What a limited destination takes of the generated text of a bundle. -/
def generateTo (limit : Option Nat) (options : Options) (bundle : Bundle) :
    Output EmitError UInt8 :=
  collected (generateOn (.upTo limit) options bundle)

end Xdr.Emit
