import Xdr.Schema.Basic
import Xdr.Wire.Unpack

/-!
# Values from the wire

## Design Notes

Types refer to each other by name, so a reader for a type takes the reader
for names as an argument, and the reader for names counts how many names it
goes through. Where every way from a name back to itself takes a word from
the input, that count is at most the product taken in `Schema.nestingLimit`.
-/

namespace Xdr

/-- A reader for a type, given a reader for each named one. -/
def Ty.decode (named : String → Unpack Value) : Ty → Unpack Value
  | .void => return .void
  | .bool => return .bool (← Unpack.bool)
  | .int => return .int (← Unpack.word).toInt32
  | .uint => return .uint (← Unpack.word)
  | .hyper => return .hyper (← Unpack.long).toInt64
  | .uhyper => return .uhyper (← Unpack.long)
  | .float => return .float (← Unpack.word)
  | .double => return .double (← Unpack.long)
  | .text limit => do return .text (← Unpack.text (← Unpack.blob limit))
  | .fixedText length => do return .text (← Unpack.text (← Unpack.fixedBlob length))
  | .bytes limit => return .bytes (← Unpack.blob limit)
  | .fixedBytes length => return .bytes (← Unpack.fixedBlob length)
  | .array item limit => return .list (← Unpack.array limit (item.decode named))
  | .fixedArray item length => return .list (← Unpack.fixedArray length (item.decode named))
  | .optional item => return Value.ofOption (← Unpack.optional (item.decode named))
  | .named name => named name

/-- A reader for some fields, in order. -/
def Component.decodeAll (named : String → Unpack Value) : List Component → Unpack (List Value)
  | [] => return []
  | field :: fields => do
    let value ← field.type.decode named
    return value :: (← decodeAll named fields)

/-- A reader for a union: the discriminant, and then the arm it selects. -/
def UnionDef.decode (named : String → Unpack Value) (decl : UnionDef) : Unpack Value := do
  let tag ← decl.tag.type.decode named
  match decl.arms.find? fun component => some component.name == decl.select tag with
  | some component =>
    return .union tag (decl.place component.name (.present (← component.type.decode named)))
  | none => return .union tag (decl.arms.map fun _ => .absent)

/-- A reader for what a name stands for. -/
def TypeDef.decode (named : String → Unpack Value) (name : String) : TypeDef → Unpack Value
  | .enumeration decl => do
    let number := (← Unpack.word).toInt32
    match decl.byNumber? number with
    | some _ => return .member number
    | none => throw (.badMember name number.toInt)
  | .record fields => return .record (← Component.decodeAll named fields)
  | .union decl => decl.decode named

namespace Schema

/-- A reader for a named type that goes through at most `limit` names. -/
def decodeNamed (schema : Schema) : Nat → String → Unpack Value
  | 0, name => throw (.undefinedType name)
  | limit + 1, name =>
    match schema.find? name with
    | some decl => decl.decode (decodeNamed schema limit) name
    | none => throw (.undefinedType name)

/-- How many names a value in some bytes can go through. -/
def nestingLimit (schema : Schema) (bytes : List UInt8) : Nat :=
  (bytes.length + 1) * (schema.length + 1)

/-- Reads a value of a type from some bytes, and gives the bytes left. -/
def decode (schema : Schema) (type : Ty) (bytes : List UInt8) :
    Except WireError Value × List UInt8 :=
  (type.decode (schema.decodeNamed (schema.nestingLimit bytes))).on bytes

end Schema
end Xdr
