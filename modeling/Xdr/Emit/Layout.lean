import Xdr.Bundle.Primitive

/-!
# Layouts

How emitted code holds a field and moves it over the wire.

## Design Notes

A declared type moves itself. Anything else is moved by a routine of the
runtime, which is given a length or a bound where there is one, and a
function for the items where there are some.
-/

namespace Xdr

/-- What a field is made of. -/
inductive Shape where
  | primitive (primitive : Primitive)
  | composite (name : String)
  deriving DecidableEq, Repr

/-- The length of an array or run of bytes: fixed, or at most a bound. -/
inductive Length where
  | fixed (length : String)
  | bounded (bound : Option String)
  deriving DecidableEq, Repr

/-- How a field is laid out. -/
inductive Layout where
  | raw (shape : Shape)
  | blob (primitive : Primitive) (length : Length)
  | array (shape : Shape) (length : Length)
  | optional (shape : Shape)
  deriving DecidableEq, Repr

/-- How emitted code reaches a field: as a place, or through a reference. -/
inductive Access where
  | place (expr : String)
  | reference (expr : String)
  deriving DecidableEq, Repr

namespace Access

/-- The value itself. -/
def copied : Access → String
  | .place expr => expr
  | .reference expr => "*" ++ expr

/-- A reference to the value. -/
def borrowed : Access → String
  | .place expr => "&" ++ expr
  | .reference expr => expr

/-- The expression on which methods are called. -/
def target : Access → String
  | .place expr => expr
  | .reference expr => expr

end Access

namespace Shape

/-- The type of emitted code that holds a shape. -/
def host : Shape → String
  | .primitive p => p.host
  | .composite name => name

/-- The function that packs an item. -/
def packItem : Shape → String
  | .primitive p =>
    if p.isBlob then s!"|packer, item| packer.pack_{p.routine}(item, None)"
    else s!"|packer, item| packer.pack_{p.routine}(*item)"
  | .composite _ => "|packer, item| item.pack(packer)"

/-- The function that unpacks an item. -/
def unpackItem : Shape → String
  | .primitive p =>
    if p.isBlob then s!"|unpacker| unpacker.unpack_{p.routine}(None)"
    else s!"|unpacker| unpacker.unpack_{p.routine}()"
  | .composite name => s!"|unpacker| {name}::unpack(unpacker)"

end Shape

/-- The bound that a routine is given, if there is one. -/
def Length.bound : Length → String
  | .fixed length => s!"Some({length})"
  | .bounded (some bound) => s!"Some({bound})"
  | .bounded none => "None"

namespace Layout

/-- The type of emitted code that holds a field. -/
def host : Layout → String
  | .raw shape => shape.host
  | .blob primitive _ => primitive.host
  | .array shape _ => s!"Vec<{shape.host}>"
  | .optional (.primitive p) => s!"Option<{p.host}>"
  | .optional (.composite name) => s!"Option<Box<{name}>>"

/-- The expression that packs a field. -/
def pack (layout : Layout) (access : Access) : String :=
  match layout with
  | .raw (.primitive p) => s!"packer.pack_{p.routine}({access.copied})"
  | .raw (.composite _) => s!"{access.target}.pack(packer)"
  | .blob p (.fixed length) => s!"packer.pack_f{p.routine}({access.borrowed}, {length})"
  | .blob p length => s!"packer.pack_{p.routine}({access.borrowed}, {length.bound})"
  | .array shape (.fixed length) =>
    s!"packer.pack_farray({access.borrowed}, {length}, {shape.packItem})"
  | .array shape length =>
    s!"packer.pack_array({access.borrowed}, {length.bound}, {shape.packItem})"
  | .optional (.primitive p) =>
    s!"packer.pack_optional({access.target}.as_ref(), {Shape.packItem (.primitive p)})"
  | .optional shape => s!"packer.pack_optional({access.target}.as_deref(), {shape.packItem})"

/-- The expression that unpacks a field. -/
def unpack : Layout → String
  | .raw (.primitive p) => s!"unpacker.unpack_{p.routine}()"
  | .raw (.composite name) => s!"{name}::unpack(unpacker)"
  | .blob p (.fixed length) => s!"unpacker.unpack_f{p.routine}({length})"
  | .blob p length => s!"unpacker.unpack_{p.routine}({length.bound})"
  | .array shape (.fixed length) => s!"unpacker.unpack_farray({length}, {shape.unpackItem})"
  | .array shape length => s!"unpacker.unpack_array({length.bound}, {shape.unpackItem})"
  | .optional (.composite name) =>
    s!"unpacker.unpack_optional(|unpacker| {name}::unpack(unpacker).map(Box::new))"
  | .optional shape => s!"unpacker.unpack_optional({shape.unpackItem})"

end Layout
end Xdr
