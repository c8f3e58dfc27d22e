import Xdr.Decl.Basic
import Xdr.Define
import Xdr.Numeral
import Xdr.Table
import Xdr.Token.Reserved

/-!
# Bundles

The declarations of an interface grouped by kind, with every literal in its
canonical spelling.

## Design Notes

An integer defined from outside becomes a constant of its own, before the
others, unless the source declares its name. Names in expressions are
followed for at most `maxSteps` steps.
-/

namespace Xdr

/-- An integer with its literal in canonical spelling. -/
def IntExpr.canonical : IntExpr → IntExpr
  | .literal text => .literal (String.ofList (Numeral.canonical text.toList))
  | .name n => .name n

/-! ### Other integers in the same places -/

section Values

variable (f : IntExpr → IntExpr)

/-- A form with another length. -/
def Form.mapValues : Form → Form
  | .array length fixed => .array (length.map f) fixed
  | form => form

/-- A field with another length. -/
def Field.mapValues (field : Field) : Field :=
  { field with form := field.form.mapValues f }

/-- A constant with another value. -/
def ConstDecl.mapValues (decl : ConstDecl) : ConstDecl :=
  { decl with value := f decl.value }

/-- A member of an enumeration with another value. -/
def EnumMember.mapValues (member : EnumMember) : EnumMember :=
  { member with value := f member.value }

/-- An enumeration with other values. -/
def EnumDecl.mapValues (decl : EnumDecl) : EnumDecl :=
  { decl with members := decl.members.map (EnumMember.mapValues f) }

/-- A structure with other lengths. -/
def StructDecl.mapValues (decl : StructDecl) : StructDecl :=
  { decl with fields := decl.fields.map (Field.mapValues f) }

/-- A label with another value. -/
def Label.mapValues : Label → Label
  | .value number => .value (f number)
  | .otherwise => .otherwise

/-- A case with another label and length. -/
def Case.mapValues (case : Case) : Case :=
  { case with label := case.label.mapValues f, form := case.form.mapValues f }

/-- A union with other labels and lengths. -/
def UnionDecl.mapValues (decl : UnionDecl) : UnionDecl :=
  { decl with cases := decl.cases.map (Case.mapValues f) }

/-- A procedure with another number. -/
def ProcDecl.mapValues (proc : ProcDecl) : ProcDecl :=
  { proc with id := f proc.id }

/-- A version with other numbers. -/
def VersionDecl.mapValues (version : VersionDecl) : VersionDecl :=
  { version with
    number := f version.number, procs := version.procs.map (ProcDecl.mapValues f) }

/-- A program with other numbers. -/
def ProgramDecl.mapValues (decl : ProgramDecl) : ProgramDecl :=
  { decl with
    number := f decl.number, versions := decl.versions.map (VersionDecl.mapValues f) }

end Values

/-! ### Canonical literals -/

/-- A field with canonical literals. -/
def Field.canonical (field : Field) : Field :=
  field.mapValues IntExpr.canonical

/-- A constant with canonical literals. -/
def ConstDecl.canonical (decl : ConstDecl) : ConstDecl :=
  decl.mapValues IntExpr.canonical

/-- An enumeration with canonical literals. -/
def EnumDecl.canonical (decl : EnumDecl) : EnumDecl :=
  decl.mapValues IntExpr.canonical

/-- A structure with canonical literals. -/
def StructDecl.canonical (decl : StructDecl) : StructDecl :=
  decl.mapValues IntExpr.canonical

/-- A union with canonical literals. -/
def UnionDecl.canonical (decl : UnionDecl) : UnionDecl :=
  decl.mapValues IntExpr.canonical

/-- A program with canonical literals. -/
def ProgramDecl.canonical (decl : ProgramDecl) : ProgramDecl :=
  decl.mapValues IntExpr.canonical

/-! ### Bundles -/

/-- The declarations of an interface by kind, each kind in source order. -/
structure Bundle where
  consts : List ConstDecl
  enums : List EnumDecl
  structs : List StructDecl
  unions : List UnionDecl
  typedefs : List Field
  programs : List ProgramDecl
  deriving DecidableEq, Repr

/-- A declaration that a type name can stand for. -/
inductive TypeDecl where
  | enum (decl : EnumDecl)
  | struct (decl : StructDecl)
  | union (decl : UnionDecl)
  | typeDef (decl : Field)
  deriving DecidableEq, Repr

/-- The name of a declared type. -/
def TypeDecl.name : TypeDecl → String
  | .enum decl => decl.name
  | .struct decl => decl.name
  | .union decl => decl.name
  | .typeDef decl => decl.name

namespace Bundle

/-- The constants that integers defined from outside become: those whose
name no declaration bears. -/
def outsideConsts (decls : List Decl) (defines : List Define) : List ConstDecl :=
  defines.filterMap fun define =>
    let name := escapeWord define.name
    match define.value with
    | .int digits =>
      if decls.any fun decl => decl.name == name then none else some ⟨name, .literal digits⟩
    | .text _ => none

/-- The bundle of some declarations and external definitions. -/
def ofDecls (decls : List Decl) (defines : List Define) : Bundle where
  consts := (outsideConsts decls defines ++ decls.filterMap fun
    | .const decl => some decl
    | _ => none).map ConstDecl.canonical
  enums := (decls.filterMap fun
    | .enum decl => some decl
    | _ => none).map EnumDecl.canonical
  structs := (decls.filterMap fun
    | .struct decl => some decl
    | _ => none).map StructDecl.canonical
  unions := (decls.filterMap fun
    | .union decl => some decl
    | _ => none).map UnionDecl.canonical
  typedefs := (decls.filterMap fun
    | .typeDef decl => some decl
    | _ => none).map Field.canonical
  programs := (decls.filterMap fun
    | .program decl => some decl
    | _ => none).map ProgramDecl.canonical

/-- The declared types, by kind and then in source order. -/
def types (bundle : Bundle) : List TypeDecl :=
  bundle.enums.map .enum ++ bundle.structs.map .struct ++ bundle.unions.map .union ++
    bundle.typedefs.map .typeDef

/-- The type declared under a name. -/
def resolve? (bundle : Bundle) (name : String) : Option TypeDecl :=
  bundle.types.find? fun decl => decl.name == name

/-- The members of all enumerations, in order. -/
def members (bundle : Bundle) : List EnumMember :=
  bundle.enums.flatMap EnumDecl.members

/-- The expression that a name stands for: that of the first constant of
that name, or else of the first enumeration member. -/
def definition? (bundle : Bundle) (name : String) : Option IntExpr :=
  match bundle.consts.find? fun decl => decl.name == name with
  | some decl => some decl.value
  | none => (bundle.members.find? fun member => member.name == name).map EnumMember.value

/-- How many names an expression may lead through. -/
def maxSteps : Nat := 32

/-- The integer that an expression denotes, through at most `steps` names. -/
def evaluateWithin (bundle : Bundle) : Nat → IntExpr → Option Int
  | _, .literal text => Numeral.value? text.toList
  | 0, .name _ => none
  | steps + 1, .name name =>
    if name = "TRUE" then some 1
    else if name = "FALSE" then some 0
    else
      match bundle.definition? name with
      | some expr => evaluateWithin bundle steps expr
      | none => none

/-- The integer that an expression denotes. -/
def evaluate (bundle : Bundle) (expr : IntExpr) : Option Int :=
  bundle.evaluateWithin maxSteps expr

/-- How emitted code refers to the names that can stand for an integer. An
enumeration member takes a name over from a constant. -/
def expressions (bundle : Bundle) : Table String :=
  let truth : Table String := [("TRUE", "true"), ("FALSE", "false")]
  let consts := bundle.consts.map fun decl => (decl.name, "constant::" ++ decl.name)
  let members := bundle.enums.flatMap fun decl =>
    decl.members.map fun member => (member.name, decl.name ++ "::" ++ member.name)
  (truth.insertAll consts).insertAll members

end Bundle
end Xdr
