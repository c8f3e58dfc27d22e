import Xdr.Decl.Basic
import Xdr.Json.Basic
import Xdr.Symbols

/-!
# Declarations as JSON

The form in which declarations are shown to other programs.

## Design Notes

Integers, types and labels are strings in their own spelling.
-/

namespace Xdr

/-- An integer as JSON. -/
def IntExpr.toJson (value : IntExpr) : Json :=
  .string value.text

/-- A type as JSON. -/
def TypeRef.toJson (type : TypeRef) : Json :=
  .string type.text

/-- The members that tell the form of a field. -/
def Form.jsonMembers : Form → List (String × Json)
  | .plain => [("note", .string "raw")]
  | .array (some length) fixed =>
    [("note", .string "array"), ("length", length.toJson), ("fixed", .bool fixed)]
  | .array none fixed => [("note", .string "array"), ("fixed", .bool fixed)]
  | .pointer => [("note", .string "pointer")]

/-- The members of a field. -/
def Field.jsonMembers (field : Field) : List (String × Json) :=
  [("name", .string field.name), ("type", field.type.toJson)] ++ field.form.jsonMembers

/-- The members of a constant. -/
def ConstDecl.jsonMembers (decl : ConstDecl) : List (String × Json) :=
  [("name", .string decl.name), ("value", decl.value.toJson)]

/-- A member of an enumeration as JSON. -/
def EnumMember.toJson (member : EnumMember) : Json :=
  .object [("name", .string member.name), ("value", member.value.toJson)]

/-- The members of an enumeration. -/
def EnumDecl.jsonMembers (decl : EnumDecl) : List (String × Json) :=
  [("name", .string decl.name), ("values", .array (decl.members.map EnumMember.toJson))]

/-- The members of a structure. -/
def StructDecl.jsonMembers (decl : StructDecl) : List (String × Json) :=
  [("name", .string decl.name),
    ("entries", .array (decl.fields.map fun field => .object field.jsonMembers))]

/-- A case of a union as JSON; what it lacks is left out. -/
def Case.toJson (case : Case) : Json :=
  .object <|
    [("label", Json.string case.label.text)] ++
    (match case.type with
      | some type => [("type", type.toJson)]
      | none => []) ++
    (match case.name with
      | some name => [("name", .string name)]
      | none => []) ++
    case.form.jsonMembers

/-- The members of a union. -/
def UnionDecl.jsonMembers (decl : UnionDecl) : List (String × Json) :=
  [("name", .string decl.name),
    ("discriminant", .object [("type", decl.discriminant.type.toJson),
      ("name", .string decl.discriminant.name)]),
    ("cases", .array (decl.cases.map Case.toJson))]

/-- A procedure as JSON. -/
def ProcDecl.toJson (proc : ProcDecl) : Json :=
  .object [("id", proc.id.toJson), ("name", .string proc.name), ("arg", proc.arg.toJson),
    ("res", proc.res.toJson)]

/-- A version as JSON. -/
def VersionDecl.toJson (version : VersionDecl) : Json :=
  .object [("name", .string version.name), ("num", version.number.toJson),
    ("procs", .array (version.procs.map ProcDecl.toJson))]

/-- The members of a program. -/
def ProgramDecl.jsonMembers (decl : ProgramDecl) : List (String × Json) :=
  [("name", .string decl.name), ("num", decl.number.toJson),
    ("versions", .array (decl.versions.map VersionDecl.toJson))]

/-- The kind of a declaration. -/
def Decl.kind : Decl → String
  | .const _ => "const"
  | .enum _ => "enum"
  | .struct _ => "struct"
  | .union _ => "union"
  | .typeDef _ => "typedef"
  | .program _ => "program"

/-- The members of a declaration, without its kind. -/
def Decl.jsonMembers : Decl → List (String × Json)
  | .const decl => decl.jsonMembers
  | .enum decl => decl.jsonMembers
  | .struct decl => decl.jsonMembers
  | .union decl => decl.jsonMembers
  | .typeDef decl => decl.jsonMembers
  | .program decl => decl.jsonMembers

/-- A declaration as JSON. -/
def Decl.toJson (decl : Decl) : Json :=
  .object (("kind", .string decl.kind) :: decl.jsonMembers)

/-- The constants of a symbol table, by name. -/
def Symbols.constantsJson (symbols : Symbols) : Json :=
  .object (symbols.constants.sorted.map fun (name, value) => (name, .string value))

end Xdr
