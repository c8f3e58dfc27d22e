import Xdr.Interface.Procedure
import Xdr.Schema.Basic

/-!
# The directory interface

An interface with fixed and limited sequences, optional values, a union over
an enumeration, and a list that goes through an optional field.
-/

namespace Xdr.Directory

/-- The constant `NAME_LIMIT`. -/
def nameLimit : UInt32 := 8

/-- The constant `SLOTS`. -/
def slots : UInt32 := 3

/-- Four bytes that stand for a content. -/
def digest : Ty := .fixedBytes 4

/-- A short text. -/
def label : Ty := .text (some nameLimit)

/-- A number of points. -/
def score : Ty := .int

/-- The kinds of shapes. -/
def shapeKind : TypeDef :=
  .enumeration ⟨[("CIRCLE", 1), ("SQUARE", 2), ("NOTHING", 8)]⟩

/-- A circle. -/
def circle : TypeDef :=
  .record [⟨"radius", .double⟩]

/-- A square. -/
def square : TypeDef :=
  .record [⟨"side", .float⟩, ⟨"filled", .bool⟩]

/-- A shape of one of the kinds. -/
def shape : TypeDef :=
  .union {
    tag := ⟨"kind", .named "shape_kind"⟩
    arms := [⟨"disk", .named "circle"⟩, ⟨"tile", .named "square"⟩]
    branches := [(1, some "disk"), (2, some "tile"), (8, none)]
    fallback := none }

/-- An entry of the directory, and those after it. -/
def entry : TypeDef :=
  .record [
    ⟨"name", label⟩,
    ⟨"id", .uhyper⟩,
    ⟨"delta", .hyper⟩,
    ⟨"slots", .fixedArray score slots⟩,
    ⟨"history", .array .int none⟩,
    ⟨"hash", digest⟩,
    ⟨"figure", .named "shape"⟩,
    ⟨"next", .optional (.named "entry")⟩,
    ⟨"weight", .optional .int⟩]

/-- A list of entries. -/
def list : Ty := .optional (.named "entry")

/-- The named types of the interface, by kind. -/
def schema : Schema :=
  [("shape_kind", shapeKind), ("circle", circle), ("square", square), ("entry", entry),
    ("shape", shape)]

/-- The procedures of the interface. -/
def procedures : List Procedure := [
  ⟨0x20000042, 1, 0, "DIRECTORY.DIRECTORY_V1.reset"⟩,
  ⟨0x20000042, 1, 1, "DIRECTORY.DIRECTORY_V1.lookup"⟩,
  ⟨0x20000042, 1, 2, "DIRECTORY.DIRECTORY_V1.store"⟩]

end Xdr.Directory
