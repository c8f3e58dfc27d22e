import Xdr.Bundle.Basic
import Xdr.Emit.Error
import Xdr.Emit.Layout

/-!
# Resolution

What the types and values of a bundle are in emitted code, or why they have
no such form.

## Design Notes

The `context` of an error is the dotted name of the place where it arises. A
name that cannot be evaluated is still emitted if it is known: it denotes
whatever the emitted code makes of it.
-/

namespace Xdr.Bundle

/-- The expression of an integer, cast to the type `cast` if it is a name. -/
def valueText (bundle : Bundle) (value : IntExpr) (cast context : String) :
    Except EmitError String :=
  match value with
  | .literal text => .ok text
  | .name name =>
    match bundle.expressions.find? name with
    | some expr => .ok s!"{expr} as {cast}"
    | none => .error (.unknownValue name context)

/-- The greatest length or number. -/
def maxUnsigned : Int := 0xffffffff

/-- The expression of a length or number. -/
def unsignedText (bundle : Bundle) (value : IntExpr) (context : String) :
    Except EmitError String :=
  match bundle.evaluate value with
  | some n =>
    if n < 0 then .error (.negativeBound context n)
    else if maxUnsigned < n then .error (.outOfRange context n "u32")
    else bundle.valueText value "u32" context
  | none => bundle.valueText value "u32" context

/-- The shape of a type. -/
def shape (bundle : Bundle) (type : TypeRef) (context : String) : Except EmitError Shape :=
  match type.primitive? with
  | some primitive => .ok (.primitive primitive)
  | none =>
    match type with
    | .named name =>
      if (bundle.resolve? name).isSome then .ok (.composite name)
      else .error (.unknownType name context)
    | _ => .error (.voidField context)

/-- The length of an array. -/
def arrayLength (bundle : Bundle) (length : Option IntExpr) (fixed : Bool)
    (context : String) : Except EmitError Length :=
  match length, fixed with
  | some value, true => (bundle.unsignedText value context).map .fixed
  | some value, false =>
    (bundle.unsignedText value context).map fun bound => .bounded (some bound)
  | none, false => .ok (.bounded none)
  | none, true => .error (.missingLength context)

/-- The layout of a field of the given type and form. -/
def layout (bundle : Bundle) (type : TypeRef) (form : Form) (context : String) :
    Except EmitError Layout := do
  let shape ← bundle.shape type context
  let blob? : Option Primitive := match shape with
    | .primitive primitive => if primitive.isBlob then some primitive else none
    | .composite _ => none
  match form, blob? with
  | .plain, some primitive => return .blob primitive (.bounded none)
  | .plain, none => return .raw shape
  | .pointer, _ => return .optional shape
  | .array length fixed, some primitive =>
    return .blob primitive (← bundle.arrayLength length fixed context)
  | .array length fixed, none =>
    return .array shape (← bundle.arrayLength length fixed context)

/-- The type of a procedure's argument or result. -/
def signatureText (bundle : Bundle) (type : TypeRef) (context : String) :
    Except EmitError String :=
  match type with
  | .void => .ok "()"
  | _ => (bundle.layout type .plain context).map Layout.host

/-- Why a type cannot select the arm of a union. -/
inductive NoKey where
  /-- It is not an integer, or leads through too many type definitions. -/
  | invalid
  /-- It leads to a name that is not declared. -/
  | unknown (name : String)
  deriving DecidableEq, Repr

/-- How many type definitions lie between a type and the integer, boolean or
enumeration that it stands for; fewer than `limit` are followed. -/
def keyDepth (bundle : Bundle) : Nat → TypeRef → Except NoKey Nat
  | 0, _ => .error .invalid
  | limit + 1, type =>
    match type.primitive? with
    | some primitive => if primitive.isIntegral then .ok 0 else .error .invalid
    | none =>
      match type with
      | .named name =>
        match bundle.resolve? name with
        | some (.enum _) => .ok 0
        | some (.typeDef target) =>
          if target.form = .plain then (bundle.keyDepth limit target.type).map (· + 1)
          else .error .invalid
        | some _ => .error .invalid
        | none => .error (.unknown name)
      | _ => .error .invalid

/-- Chains of type definitions of this length count as circular. -/
def maxAliases : Nat := 32

/-- A union's discriminant at `place` as an integer; type definitions are
opened on the way to it. -/
def keyText (bundle : Bundle) (type : TypeRef) (place union : String) :
    Except EmitError String :=
  match bundle.keyDepth maxAliases type with
  | .ok depth => .ok (place ++ String.join (List.replicate depth ".0") ++ " as i64")
  | .error .invalid => .error (.invalidDiscriminant union type.text)
  | .error (.unknown name) => .error (.unknownType name union)

end Xdr.Bundle
