import Xdr.Schema.Basic
import Xdr.Text.Utf8
import Xdr.Wire.Pack

/-!
# The wire form of a value

## Design Notes

The fields of a record are written in order. Of a union, the discriminant is
written and then the arm it selects; what other arms hold is not looked at.
-/

namespace Xdr.Schema

mutual

/-- Writes a value of a type. -/
def encode (schema : Schema) : Ty → Value → Packed
  | .void, .void => .wrote []
  | .bool, .bool value => .bool value
  | .int, .int value => .word value.toUInt32
  | .uint, .uint value => .word value
  | .hyper, .hyper value => .long value.toUInt64
  | .uhyper, .uhyper value => .long value
  | .float, .float bits => .word bits
  | .double, .double bits => .long bits
  | .text limit, .text value => .blob limit (Text.utf8 value)
  | .fixedText length, .text value => .fixedBlob length (Text.utf8 value)
  | .bytes limit, .bytes value => .blob limit value
  | .fixedBytes length, .bytes value => .fixedBlob length value
  | .array item limit, .list items =>
    .counted limit items.length (encodeItems schema item items)
  | .fixedArray item length, .list items =>
    .fixed length items.length (encodeItems schema item items)
  | .optional _, .absent => .bool false
  | .optional item, .present value => (Packed.bool true).andThen (encode schema item value)
  | .named name, .member number =>
    match schema.find? name with
    | some (.enumeration _) => .word number.toUInt32
    | some _ => .failed .illTyped
    | none => .failed (.undefinedType name)
  | .named name, .record values =>
    match schema.find? name with
    | some (.record fields) => encodeFields schema fields values
    | some _ => .failed .illTyped
    | none => .failed (.undefinedType name)
  | .named name, .union tag values =>
    match schema.find? name with
    | some (.union decl) =>
      (encode schema decl.tag.type tag).andThen <|
        match decl.select tag with
        | some arm => encodeArm schema name arm decl.arms values
        | none => .wrote []
    | some _ => .failed .illTyped
    | none => .failed (.undefinedType name)
  | _, _ => .failed .illTyped

/-- Writes items of one type, in order. -/
def encodeItems (schema : Schema) (item : Ty) : List Value → Packed
  | [] => .wrote []
  | value :: values => (encode schema item value).andThen (encodeItems schema item values)

/-- Writes the fields of a record, in order. -/
def encodeFields (schema : Schema) : List Component → List Value → Packed
  | [], [] => .wrote []
  | field :: fields, value :: values =>
    (encode schema field.type value).andThen (encodeFields schema fields values)
  | _, _ => .failed .illTyped

/-- Writes the arm of the union `union` with the name `arm`, which has to be
there. -/
def encodeArm (schema : Schema) (union arm : String) : List Component → List Value → Packed
  | component :: components, .present value :: values =>
    if component.name == arm then encode schema component.type value
    else encodeArm schema union arm components values
  | component :: components, .absent :: values =>
    if component.name == arm then .failed (.missingArm union arm)
    else encodeArm schema union arm components values
  | [], [] => .wrote []
  | _, _ => .failed .illTyped

end

/-- Adds a value to what was written before. -/
def pack (schema : Schema) (type : Ty) (value : Value) (packer : Packer) :
    Packer × Option WireError :=
  let item := schema.encode type value
  (packer.add item, item.failure)

end Xdr.Schema
