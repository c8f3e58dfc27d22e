/-!
# Declarations

What an interface definition declares: constants, enumerations, structures,
unions, type definitions and programs. References between declarations are
by name.
-/

namespace Xdr

/-- An integer as it is written: a literal in its own spelling, or a name. -/
inductive IntExpr where
  | literal (text : String)
  | name (name : String)
  deriving DecidableEq, Repr

/-- A type as it is written. -/
inductive TypeRef where
  | int
  | uint
  | hyper
  | uhyper
  | float
  | double
  | bool
  | string
  | opaqueData
  | netobj
  | void
  | named (name : String)
  deriving DecidableEq, Repr

/-- How a field holds its type. -/
inductive Form where
  /-- A single value. -/
  | plain
  /-- An array; a fixed one has exactly the given length, any other at most
  that. -/
  | array (length : Option IntExpr) (fixed : Bool)
  /-- A value that may be absent. -/
  | pointer
  deriving DecidableEq, Repr

/-- A named component of a structure, an arm of a union, or a type
definition. -/
structure Field where
  name : String
  type : TypeRef
  form : Form
  deriving DecidableEq, Repr

/-- A constant. -/
structure ConstDecl where
  name : String
  value : IntExpr
  deriving DecidableEq, Repr

/-- A member of an enumeration. -/
structure EnumMember where
  name : String
  value : IntExpr
  deriving DecidableEq, Repr

/-- An enumeration. -/
structure EnumDecl where
  name : String
  members : List EnumMember
  deriving DecidableEq, Repr

/-- A structure. -/
structure StructDecl where
  name : String
  fields : List Field
  deriving DecidableEq, Repr

/-- The component of a union that selects its arm. -/
structure Discriminant where
  type : TypeRef
  name : String
  deriving DecidableEq, Repr

/-- What a case of a union applies to. -/
inductive Label where
  | value (value : IntExpr)
  | otherwise
  deriving DecidableEq, Repr

/-- A case of a union. It carries a field only if it has both a type and a
name. -/
structure Case where
  label : Label
  type : Option TypeRef
  name : Option String
  form : Form
  deriving DecidableEq, Repr

/-- A union. -/
structure UnionDecl where
  name : String
  discriminant : Discriminant
  cases : List Case
  deriving DecidableEq, Repr

/-- A procedure of a program's version. -/
structure ProcDecl where
  id : IntExpr
  name : String
  arg : TypeRef
  res : TypeRef
  deriving DecidableEq, Repr

/-- A version of a program. -/
structure VersionDecl where
  name : String
  number : IntExpr
  procs : List ProcDecl
  deriving DecidableEq, Repr

/-- A program. -/
structure ProgramDecl where
  name : String
  number : IntExpr
  versions : List VersionDecl
  deriving DecidableEq, Repr

/-- A declaration. -/
inductive Decl where
  | const (decl : ConstDecl)
  | enum (decl : EnumDecl)
  | struct (decl : StructDecl)
  | union (decl : UnionDecl)
  | typeDef (decl : Field)
  | program (decl : ProgramDecl)
  deriving DecidableEq, Repr

/-- An integer in its own spelling. -/
def IntExpr.text : IntExpr → String
  | .literal digits => digits
  | .name n => n

/-- A type in its canonical spelling. -/
def TypeRef.text : TypeRef → String
  | .int => "int"
  | .uint => "unsigned int"
  | .hyper => "hyper"
  | .uhyper => "unsigned hyper"
  | .float => "float"
  | .double => "double"
  | .bool => "bool"
  | .string => "string"
  | .opaqueData => "opaque"
  | .netobj => "netobj"
  | .void => "void"
  | .named name => name

/-- A label in its own spelling. -/
def Label.text : Label → String
  | .value v => v.text
  | .otherwise => "default"

/-- The field that a case carries, if any. -/
def Case.field? (case : Case) : Option Field :=
  match case.type, case.name with
  | some type, some name => some ⟨name, type, case.form⟩
  | _, _ => none

/-- The declared name. -/
def Decl.name : Decl → String
  | .const decl => decl.name
  | .enum decl => decl.name
  | .struct decl => decl.name
  | .union decl => decl.name
  | .typeDef decl => decl.name
  | .program decl => decl.name

end Xdr
