import Xdr.Output
import Xdr.Wire.Error
import Xdr.Wire.Word

/-!
# Packing

What writing an item adds to the wire, for each kind of layout.

## Design Notes

A length is checked before anything is written, so a sequence of a wrong
length adds no byte. What was added before a fault further inside stays.
-/

namespace Xdr

/-- The bytes that writing an item adds, and why it stopped if it did. -/
abbrev Packed := Output WireError UInt8

namespace Packed

/-- A 32-bit word. -/
def word (value : UInt32) : Packed :=
  .wrote (Wire.wordBytes value)

/-- A 64-bit word. -/
def long (value : UInt64) : Packed :=
  .wrote (Wire.longBytes value)

/-- A truth value, as the word 1 or 0. -/
def bool (value : Bool) : Packed :=
  word (if value then 1 else 0)

/-- The limit of a sequence for which none is given. -/
def noLimit : UInt32 := 0xffffffff

/-- Writes `items` if there are `required` of them. -/
def fixed (required : UInt32) (found : Nat) (items : Packed) : Packed :=
  if found = required.toNat then items else .failed (.wrongLength required found)

/-- Writes the number of items and then `items`, if their number is within
the limit. -/
def counted (limit : Option UInt32) (found : Nat) (items : Packed) : Packed :=
  let limit := limit.getD noLimit
  if found ≤ limit.toNat then (word (UInt32.ofNat found)).andThen items
  else .failed (.tooLong limit found)

/-- Bytes of a given number, without their length. -/
def fixedBlob (required : UInt32) (bytes : List UInt8) : Packed :=
  fixed required bytes.length (.wrote (Wire.padded bytes))

/-- Bytes after their length. -/
def blob (limit : Option UInt32) (bytes : List UInt8) : Packed :=
  counted limit bytes.length (.wrote (Wire.padded bytes))

end Packed

/-- The bytes written so far. -/
structure Packer where
  bytes : List UInt8
  deriving DecidableEq, Repr

namespace Packer

/-- Nothing was written. -/
def empty : Packer := ⟨[]⟩

/-- Adds an item, or the part of it before a fault. -/
def add (packer : Packer) (item : Packed) : Packer :=
  ⟨packer.bytes ++ item.content⟩

end Packer
end Xdr
