import Xdr.Binary
import Xdr.Json.Package
import Xdr.Schema.Default
import Xdr.Wire.Error

/-!
# The structural form of a value

## Design Notes

A record is an object with its fields in order, and a union one with its
discriminant and the arm it selects. A member of an enumeration is its name,
and can be read from its number too. An absent value is `null`, and so is a
number that is not finite. A field that is not given takes its default; keys
of other names are ignored. Each named type on the way to a value inside
another is an object around it, so the depth of nesting bounds how many
names are gone through.
-/

namespace Xdr

namespace Json

/-- The fault of a value that is not of the required shape. -/
def mismatch (required : String) (found : Json) : WireError :=
  .mismatch required found.compact

/-- The integer that a value is. -/
def int? : Json → Option Int
  | .number (.int value) => some value
  | _ => none

/-- The integer that a value is, if it is at least `least` and at most
`greatest`. -/
def intWithin (least greatest : Int) (required : String) (value : Json) :
    Except WireError Int :=
  match value.int? with
  | some n => if least ≤ n ∧ n ≤ greatest then .ok n else .error (mismatch required value)
  | none => .error (mismatch required value)

/-- An integer as the nearest 64-bit binary number. -/
def doubleOfInt (n : Int) : UInt64 :=
  UInt64.ofNat
    (Binary.withSign Binary.double (n < 0) (Binary.nearest Binary.double n.natAbs 1))

/-- The 64-bit binary number that a value is. -/
def double? : Json → Option UInt64
  | .number (.int value) => some (doubleOfInt value)
  | .number (.float bits) => some bits
  | _ => none

/-- A 64-bit binary number, or `null` if it is not finite. -/
def ofDouble (bits : UInt64) : Json :=
  match Binary.magnitude Binary.double bits.toNat with
  | .finite .. => .number (.float bits)
  | _ => .null

/-- The 32-bit binary number nearest to a 64-bit one. -/
def narrow (bits : UInt64) : UInt32 :=
  UInt32.ofNat (Binary.convert Binary.double Binary.single bits.toNat)

/-- A 32-bit binary number as a 64-bit one. -/
def widen (bits : UInt32) : UInt64 :=
  UInt64.ofNat (Binary.convert Binary.single Binary.double bits.toNat)

/-- The byte that a value is. -/
def byte (value : Json) : Except WireError UInt8 :=
  (intWithin 0 255 "u8" value).map fun n => UInt8.ofNat n.toNat

/-- The signed 32-bit number that a value is. -/
def int32 (value : Json) : Except WireError Int32 :=
  (intWithin (-0x80000000) 0x7fffffff "i32" value).map Int32.ofInt

/-- The items of a value that is an array. -/
def items (value : Json) : Except WireError (List Json) :=
  match value with
  | .array items => .ok items
  | _ => .error (mismatch "array" value)

/-- The members of a value that is an object. -/
def members (required : String) (value : Json) : Except WireError (Table Json) :=
  match value with
  | .object members => .ok members
  | _ => .error (mismatch required value)

end Json

/-- The value of a type that a structural value stands for, given the same
for each named type. -/
def Ty.ofJson (named : String → Json → Except WireError Value) :
    Ty → Json → Except WireError Value
  | .void, _ => .ok .void
  | .bool, value =>
    match value with
    | .bool b => .ok (.bool b)
    | _ => .error (Json.mismatch "bool" value)
  | .int, value => value.int32.map .int
  | .uint, value =>
    (value.intWithin 0 0xffffffff "u32").map fun n => .uint (UInt32.ofNat n.toNat)
  | .hyper, value =>
    (value.intWithin (-0x8000000000000000) 0x7fffffffffffffff "i64").map fun n =>
      .hyper (Int64.ofInt n)
  | .uhyper, value =>
    (value.intWithin 0 0xffffffffffffffff "u64").map fun n => .uhyper (UInt64.ofNat n.toNat)
  | .float, value =>
    match value.double? with
    | some bits => .ok (.float (Json.narrow bits))
    | none => .error (Json.mismatch "f32" value)
  | .double, value =>
    match value.double? with
    | some bits => .ok (.double bits)
    | none => .error (Json.mismatch "f64" value)
  | .text _, value | .fixedText _, value =>
    match value with
    | .string s => .ok (.text s)
    | _ => .error (Json.mismatch "string" value)
  | .bytes _, value | .fixedBytes _, value => do
    return .bytes (← (← value.items).mapM Json.byte)
  | .array item _, value | .fixedArray item _, value => do
    return .list (← (← value.items).mapM (item.ofJson named))
  | .optional item, value =>
    match value with
    | .null => .ok .absent
    | _ => (item.ofJson named value).map .present
  | .named name, value => named name value

/-- The field of an object with the given name and type, or the default if
there is none. -/
def Component.ofMembers (named : String → Json → Except WireError Value)
    (default : Ty → Value)
    (members : Table Json) (field : Component) : Except WireError Value :=
  match members.find? field.name with
  | some value => field.type.ofJson named value
  | none => .ok (default field.type)

/-- The arm of a union in an object, if there is one. -/
def Component.armOfMembers (named : String → Json → Except WireError Value)
    (members : Table Json) (arm : Component) : Except WireError Value :=
  match members.find? arm.name with
  | some value => (arm.type.ofJson named value).map .present
  | none => .ok .absent

/-- The enumeration member that a structural value gives by its name or
number. -/
def EnumDef.ofJson (name : String) (decl : EnumDef) : Json → Except WireError Value
  | .string member =>
    match decl.byName? member with
    | some found => .ok (.member found.2)
    | none => .error (.badMemberName name member)
  | value => do
    let number ← value.int32
    match decl.byNumber? number with
    | some _ => return .member number
    | none => throw (.badMember name number.toInt)

/-- The union that an object stands for. -/
def UnionDef.ofMembers (named : String → Json → Except WireError Value) (default : Ty → Value)
    (decl : UnionDef) (members : Table Json) : Except WireError Value := do
  let tag ← decl.tag.ofMembers named default members
  match decl.arms.find? fun component => some component.name == decl.select tag with
  | some component =>
    return .union tag (decl.place component.name (← component.armOfMembers named members))
  | none => return .union tag (decl.arms.map fun _ => .absent)

/-- The value that a structural value stands for, of the type that a name
stands for. -/
def TypeDef.ofJson (named : String → Json → Except WireError Value) (default : Ty → Value)
    (name : String) (value : Json) : TypeDef → Except WireError Value
  | .enumeration decl => decl.ofJson name value
  | .record fields => do
    let members ← value.members name
    return .record (← fields.mapM (Component.ofMembers named default members))
  | .union decl => do
    decl.ofMembers named default (← value.members name)

namespace Schema

/-- The value of a named type that a structural value stands for, through at
most `limit` names. -/
def ofJsonNamed (schema : Schema) : Nat → String → Json → Except WireError Value
  | 0, name, _ => .error (.undefinedType name)
  | limit + 1, name, value =>
    match schema.find? name with
    | some decl => decl.ofJson (ofJsonNamed schema limit) schema.default name value
    | none => .error (.undefinedType name)

/-- The value of a type that a structural value stands for. -/
def ofJson (schema : Schema) (type : Ty) (value : Json) : Except WireError Value :=
  type.ofJson (schema.ofJsonNamed (value.depth + 1)) value

/-- The value of a type that a text stands for. -/
def ofText (schema : Schema) (package : Json.Package) (type : Ty) (text : String) :
    Except WireError Value :=
  match package.read text with
  | some value => schema.ofJson type value
  | none => .error .badJson

/-- The field of an object with the given type and name, or the default of
the type. -/
def field (schema : Schema) (members : Table Json) (type : Ty) (name : String) :
    Except WireError Value :=
  match members.find? name with
  | some value => schema.ofJson type value
  | none => .ok (schema.default type)

/-- The arm of an object with the given type and name, which is absent if
there is no such key. -/
def arm (schema : Schema) (members : Table Json) (type : Ty) (name : String) :
    Except WireError (Option Value) :=
  match members.find? name with
  | some value => (schema.ofJson type value).map some
  | none => .ok none

mutual

/-- A value as a structural value. -/
def toJson (schema : Schema) : Ty → Value → Json
  | .bool, .bool value => .bool value
  | .int, .int value => .int value.toInt
  | .uint, .uint value => .nat value.toNat
  | .hyper, .hyper value => .int value.toInt
  | .uhyper, .uhyper value => .nat value.toNat
  | .float, .float bits => .ofDouble (Json.widen bits)
  | .double, .double bits => .ofDouble bits
  | .text _, .text value | .fixedText _, .text value => .string value
  | .bytes _, .bytes value | .fixedBytes _, .bytes value =>
    .array (value.map fun byte => .nat byte.toNat)
  | .array item _, .list items | .fixedArray item _, .list items =>
    .array (itemsToJson schema item items)
  | .optional item, .present value => toJson schema item value
  | .named name, .member number =>
    match schema.find? name with
    | some (.enumeration decl) =>
      match decl.byNumber? number with
      | some member => .string member.1
      | none => .null
    | _ => .null
  | .named name, .record values =>
    match schema.find? name with
    | some (.record fields) =>
      .object (Table.insertAll [] (fieldsToJson schema fields values))
    | _ => .null
  | .named name, .union tag values =>
    match schema.find? name with
    | some (.union decl) =>
      .object (Table.insertAll [] ((decl.tag.name, toJson schema decl.tag.type tag) ::
        match decl.select tag with
        | some arm => armToJson schema arm decl.arms values
        | none => []))
    | _ => .null
  | _, _ => .null

/-- Items of one type as structural values. -/
def itemsToJson (schema : Schema) (item : Ty) : List Value → List Json
  | [] => []
  | value :: values => toJson schema item value :: itemsToJson schema item values

/-- The fields of a record as members that are inserted in an object. -/
def fieldsToJson (schema : Schema) : List Component → List Value → Table Json
  | field :: fields, value :: values =>
    (field.name, toJson schema field.type value) :: fieldsToJson schema fields values
  | _, _ => []

/-- The arm with the name `arm` as a member that is inserted in an object,
if the union holds it. -/
def armToJson (schema : Schema) (arm : String) : List Component → List Value → Table Json
  | component :: components, .present value :: values =>
    if component.name == arm then [(arm, toJson schema component.type value)]
    else armToJson schema arm components values
  | component :: components, _ :: values =>
    if component.name == arm then [] else armToJson schema arm components values
  | _, _ => []

end

/-- A value as a text. -/
def toText (schema : Schema) (package : Json.Package) (type : Ty) (value : Value) :
    Except WireError String :=
  match package.write (schema.toJson type value) with
  | some text => .ok text
  | none => .error .badJson

/-- The name of the arm that a union's discriminant selects, if the type is
a union. -/
def selectedArm (schema : Schema) : Ty → Value → Option String
  | .named name, .union tag _ =>
    match schema.find? name with
    | some (.union decl) => decl.select tag
    | _ => none
  | _, _ => none

end Schema
end Xdr
