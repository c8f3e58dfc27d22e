import Xdr.Schema.Basic

/-!
# Default values

## Design Notes

Numbers are zero, and texts and sequences are empty, also those of a fixed
length. An enumeration has its first member. A union has no arm filled. A
record whose default holds one of the same type has none, so at most every
name of the schema is gone through.
-/

namespace Xdr

/-- The default of a type, given the default of each named one. -/
def Ty.default (named : String → Value) : Ty → Value
  | .void => .void
  | .bool => .bool false
  | .int => .int 0
  | .uint => .uint 0
  | .hyper => .hyper 0
  | .uhyper => .uhyper 0
  | .float => .float 0
  | .double => .double 0
  | .text _ => .text ""
  | .fixedText _ => .text ""
  | .bytes _ => .bytes []
  | .fixedBytes _ => .bytes []
  | .array _ _ => .list []
  | .fixedArray _ _ => .list []
  | .optional _ => .absent
  | .named name => named name

/-- The default of what a name stands for. -/
def TypeDef.default (named : String → Value) : TypeDef → Value
  | .enumeration decl => .member ((decl.members.head?.map Prod.snd).getD 0)
  | .record fields => .record (fields.map fun field => field.type.default named)
  | .union decl => .union (decl.tag.type.default named) (decl.arms.map fun _ => .absent)

namespace Schema

/-- The default of a named type, through at most `limit` names. -/
def defaultNamed (schema : Schema) : Nat → String → Value
  | 0, _ => .void
  | limit + 1, name =>
    match schema.find? name with
    | some decl => decl.default (defaultNamed schema limit)
    | none => .void

/-- The default of a type. -/
def default (schema : Schema) (type : Ty) : Value :=
  type.default (schema.defaultNamed (schema.length + 1))

end Schema
end Xdr
