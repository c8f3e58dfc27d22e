import Xdr.Table

/-!
# Schemas and values

The types whose values travel on the wire, and the values.

## Design Notes

A name that only abbreviates another type is written out, because it shows
in neither form of a value. A value holds no names: the fields of a record
and the arms of a union stand in the order of their declaration. A union
holds a place for every arm, and the discriminant says which of them counts.
Binary numbers are held as bit patterns, so that a value is never changed by
a comparison or a copy.
-/

namespace Xdr

/-- A type. -/
inductive Ty where
  | void
  | bool
  | int
  | uint
  | hyper
  | uhyper
  | float
  | double
  | text (limit : Option UInt32)
  | fixedText (length : UInt32)
  | bytes (limit : Option UInt32)
  | fixedBytes (length : UInt32)
  | array (item : Ty) (limit : Option UInt32)
  | fixedArray (item : Ty) (length : UInt32)
  | optional (item : Ty)
  | named (name : String)
  deriving DecidableEq, Repr

/-- A named part of a record or union. -/
structure Component where
  name : String
  type : Ty
  deriving DecidableEq, Repr

/-- An enumeration: its members and their numbers, in order. -/
structure EnumDef where
  members : List (String × Int32)
  deriving DecidableEq, Repr

/-- A union: its discriminant, its arms, the arm for each label (none for a
label without a value), and the arm for every other discriminant. -/
structure UnionDef where
  tag : Component
  arms : List Component
  branches : List (Int × Option String)
  fallback : Option String
  deriving DecidableEq, Repr

/-- What a name stands for. -/
inductive TypeDef where
  | enumeration (decl : EnumDef)
  | record (fields : List Component)
  | union (decl : UnionDef)
  deriving DecidableEq, Repr

/-- The named types of an interface. -/
abbrev Schema := Table TypeDef

/-- A value. -/
inductive Value where
  | void
  | bool (value : Bool)
  | int (value : Int32)
  | uint (value : UInt32)
  | hyper (value : Int64)
  | uhyper (value : UInt64)
  | float (bits : UInt32)
  | double (bits : UInt64)
  | text (value : String)
  | bytes (value : List UInt8)
  | list (items : List Value)
  | absent
  | present (value : Value)
  | member (number : Int32)
  | record (fields : List Value)
  | union (tag : Value) (arms : List Value)
  deriving Repr

namespace EnumDef

/-- The member with the given number. -/
def byNumber? (decl : EnumDef) (number : Int32) : Option (String × Int32) :=
  decl.members.find? fun member => member.2 == number

/-- The member with the given name. -/
def byName? (decl : EnumDef) (name : String) : Option (String × Int32) :=
  decl.members.find? fun member => member.1 == name

end EnumDef

namespace Value

/-- The number by which a value selects the arm of a union; an unsigned
64-bit number counts as the signed one with the same bits. -/
def selector? : Value → Option Int
  | .bool value => some (if value then 1 else 0)
  | .int value => some value.toInt
  | .uint value => some value.toNat
  | .hyper value => some value.toInt
  | .uhyper value => some value.toInt64.toInt
  | .member number => some number.toInt
  | _ => none

/-- A value that may be absent. -/
def ofOption : Option Value → Value
  | some value => .present value
  | none => .absent

end Value

namespace UnionDef

/-- The arm that a discriminant selects. -/
def select (decl : UnionDef) (tag : Value) : Option String :=
  match decl.branches.find? fun branch => some branch.1 == tag.selector? with
  | some branch => branch.2
  | none => decl.fallback

/-- The places of all arms, of which only the one with the given name is
filled. -/
def place (decl : UnionDef) (arm : String) (value : Value) : List Value :=
  decl.arms.map fun component => if component.name == arm then value else .absent

end UnionDef

end Xdr
