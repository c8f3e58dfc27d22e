import Xdr.Text.Utf8
import Xdr.Wire.Error
import Xdr.Wire.Word

/-!
# Unpacking

Readers of the wire, for each kind of layout.

## Design Notes

A reader that fails leaves what it had not taken yet. Padding is skipped
without a look at its bytes.
-/

namespace Xdr

/-- A reader: from the bytes left to a result and the bytes then left. -/
abbrev Unpack := ExceptT WireError (StateM (List UInt8))

namespace Unpack

variable {α : Type}

/-- The result of a reader on some bytes, and the bytes then left. -/
def on (reader : Unpack α) (bytes : List UInt8) : Except WireError α × List UInt8 :=
  reader.run.run bytes

/-- The first `count` bytes and the rest, or how many are lacking. -/
def split : Nat → List UInt8 → Except Nat (List UInt8 × List UInt8)
  | 0, bytes => .ok ([], bytes)
  | count + 1, [] => .error (count + 1)
  | count + 1, byte :: bytes =>
    match split count bytes with
    | .ok (taken, rest) => .ok (byte :: taken, rest)
    | .error lacking => .error lacking

/-- The next `count` bytes; if there are fewer, none is taken. -/
def take (count : Nat) : Unpack (List UInt8) := fun bytes =>
  match split count bytes with
  | .ok (taken, rest) => (.ok taken, rest)
  | .error lacking => (.error (.endOfInput lacking), bytes)

/-- A 32-bit word. -/
def word : Unpack UInt32 := do
  return UInt32.ofNat (Wire.numberOf (← take 4))

/-- A 64-bit word. -/
def long : Unpack UInt64 := do
  return UInt64.ofNat (Wire.numberOf (← take 8))

/-- A truth value, which is the word 1 or 0. -/
def bool : Unpack Bool := do
  let value ← word
  if value = 0 then return false
  else if value = 1 then return true
  else throw (.badBool value)

/-- The number of items of a sequence, within the limit. -/
def length (limit : Option UInt32) : Unpack UInt32 := do
  let found ← word
  match limit with
  | some limit => if limit < found then throw (.tooLong limit found.toNat) else return found
  | none => return found

/-- A given number of bytes and their padding. -/
def fixedBlob (count : UInt32) : Unpack (List UInt8) := do
  let taken ← take (count.toNat + Wire.padding count.toNat)
  return taken.take count.toNat

/-- Bytes after their length. -/
def blob (limit : Option UInt32) : Unpack (List UInt8) := do
  fixedBlob (← length limit)

/-- The text that some bytes encode. -/
def text (bytes : List UInt8) : Unpack String :=
  match Text.ofUtf8? bytes with
  | some text => return text
  | none => throw .badText

/-- A given number of items. -/
def times (item : Unpack α) : Nat → Unpack (List α)
  | 0 => return []
  | count + 1 => do
    let first ← item
    return first :: (← times item count)

/-- A given number of items, without their number. -/
def fixedArray (count : UInt32) (item : Unpack α) : Unpack (List α) :=
  times item count.toNat

/-- Items after their number. -/
def array (limit : Option UInt32) (item : Unpack α) : Unpack (List α) := do
  fixedArray (← length limit) item

/-- An item after the truth value that says whether it is there. -/
def optional (item : Unpack α) : Unpack (Option α) := do
  if ← bool then return some (← item) else return none

end Unpack
end Xdr
