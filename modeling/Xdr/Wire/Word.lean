/-!
# Words

Numbers as bytes, the most significant byte first, and the padding that
keeps every item on a word boundary.

## Design Notes

A word has four bytes. A number that does not fit its bytes loses its high
part, so that `numberOf` undoes `bytesOf` on numbers that fit.
-/

namespace Xdr.Wire

/-- The number of bytes to a multiple of which every item is filled up. -/
def alignment : Nat := 4

/-- A number in `width` bytes, the most significant byte first. -/
def bytesOf : Nat → Nat → List UInt8
  | 0, _ => []
  | width + 1, n => UInt8.ofNat (n / Nat.pow 256 width) :: bytesOf width n

/-- The number that some bytes stand for, the most significant byte first. -/
def numberOf (bytes : List UInt8) : Nat :=
  bytes.foldl (fun number byte => number * 256 + byte.toNat) 0

/-- How many bytes follow an item of `length` bytes up to the next boundary.
-/
def padding (length : Nat) : Nat :=
  (alignment - length % alignment) % alignment

/-- Some bytes, filled up with zeros to the next boundary. -/
def padded (bytes : List UInt8) : List UInt8 :=
  bytes ++ List.replicate (padding bytes.length) 0

/-- The bytes of a 32-bit word. -/
def wordBytes (word : UInt32) : List UInt8 :=
  bytesOf 4 word.toNat

/-- The bytes of a 64-bit word. -/
def longBytes (word : UInt64) : List UInt8 :=
  bytesOf 8 word.toNat

end Xdr.Wire
