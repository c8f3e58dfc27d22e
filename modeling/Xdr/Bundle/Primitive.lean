import Xdr.Decl.Basic

/-!
# Primitive types

The types that are not declared, by the routine that moves them over the
wire.
-/

namespace Xdr

/-- A routine that moves a value over the wire. -/
inductive Primitive where
  | int
  | uint
  | bool
  | hyper
  | uhyper
  | float
  | double
  | string
  | opaqueData
  deriving DecidableEq, Repr

namespace Primitive

/-- Every routine. -/
def all : List Primitive :=
  [.int, .uint, .bool, .hyper, .uhyper, .float, .double, .string, .opaqueData]

/-- The name of a routine. -/
def routine : Primitive → String
  | .int => "int"
  | .uint => "uint"
  | .bool => "bool"
  | .hyper => "hyper"
  | .uhyper => "uhyper"
  | .float => "float"
  | .double => "double"
  | .string => "string"
  | .opaqueData => "opaque"

/-- The type of emitted code that holds the values of a routine. -/
def host : Primitive → String
  | .int => "i32"
  | .uint => "u32"
  | .bool => "bool"
  | .hyper => "i64"
  | .uhyper => "u64"
  | .float => "f32"
  | .double => "f64"
  | .string => "String"
  | .opaqueData => "Vec<u8>"

/-- A routine for a run of bytes, which has a length even when it stands
alone. -/
def isBlob : Primitive → Bool
  | .string => true
  | .opaqueData => true
  | _ => false

/-- A routine whose values can select an arm of a union. -/
def isIntegral : Primitive → Bool
  | .int => true
  | .uint => true
  | .bool => true
  | .hyper => true
  | .uhyper => true
  | _ => false

end Primitive

/-- The types with a routine of their own. -/
def TypeRef.primitives : List TypeRef :=
  [.int, .uint, .hyper, .uhyper, .float, .double, .bool, .string, .opaqueData, .netobj]

/-- The routine of a type, if it is neither void nor declared. -/
def TypeRef.primitive? : TypeRef → Option Primitive
  | .int => some .int
  | .uint => some .uint
  | .hyper => some .hyper
  | .uhyper => some .uhyper
  | .float => some .float
  | .double => some .double
  | .bool => some .bool
  | .string => some .string
  | .opaqueData => some .opaqueData
  | .netobj => some .opaqueData
  | .void => none
  | .named _ => none

end Xdr
