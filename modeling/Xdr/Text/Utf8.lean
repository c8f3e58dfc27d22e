/-!
# UTF-8

Texts as byte lists, which is the form files, wires and filters have them
in.
-/

namespace Xdr.Text

/-- The bytes of a text. -/
def utf8 (s : String) : List UInt8 :=
  s.toByteArray.data.toList

/-- The text that `bytes` encodes, if it is well-formed. -/
def ofUtf8? (bytes : List UInt8) : Option String :=
  String.fromUTF8? ⟨bytes.toArray⟩

/-- Where bytes stop being a text: the bytes up to `index` are one. There,
`length` bytes form no character, or the bytes end inside a character if no
length is given. -/
structure Utf8Fault where
  index : Nat
  length : Option Nat
  deriving DecidableEq, Repr

namespace Utf8Fault

/-- The message of a fault. -/
def message (fault : Utf8Fault) : String :=
  match fault.length with
  | some length => s!"invalid utf-8 sequence of {length} bytes from index {fault.index}"
  | none => s!"incomplete utf-8 byte sequence from index {fault.index}"

end Utf8Fault

/-- The ranges in which the bytes after `first` have to lie, if it begins a
character. -/
def followRanges (first : UInt8) : Option (List (UInt8 × UInt8)) :=
  let any : UInt8 × UInt8 := (0x80, 0xbf)
  if first < 0x80 then some []
  else if first < 0xc2 then none
  else if first < 0xe0 then some [any]
  else if first = 0xe0 then some [(0xa0, 0xbf), any]
  else if first = 0xed then some [(0x80, 0x9f), any]
  else if first < 0xf0 then some [any, any]
  else if first = 0xf0 then some [(0x90, 0xbf), any, any]
  else if first < 0xf4 then some [any, any, any]
  else if first = 0xf4 then some [(0x80, 0x8f), any, any]
  else none

/-- The faulty length of a character of which `taken` bytes were read and
others lie in `ranges`, or none if it is well-formed: the bytes end inside
it, or it breaks off after some bytes. -/
def followFault (taken : Nat) : List (UInt8 × UInt8) → List UInt8 → Option (Option Nat)
  | [], _ => none
  | _ :: _, [] => some none
  | (low, high) :: ranges, byte :: bytes =>
    if low ≤ byte ∧ byte ≤ high then followFault (taken + 1) ranges bytes
      else some (some taken)

/-- Where bytes from `index` on stop being a text, of which `skip` bytes
belong to a character already checked. -/
def utf8FaultFrom (index skip : Nat) : List UInt8 → Option Utf8Fault
  | [] => none
  | byte :: bytes =>
    match skip with
    | skip + 1 => utf8FaultFrom (index + 1) skip bytes
    | 0 =>
      match followRanges byte with
      | none => some ⟨index, some 1⟩
      | some ranges =>
        match followFault 1 ranges bytes with
        | some length => some ⟨index, length⟩
        | none => utf8FaultFrom (index + 1) ranges.length bytes

/-- Where bytes stop being a text, if they do. -/
def utf8Fault? (bytes : List UInt8) : Option Utf8Fault :=
  utf8FaultFrom 0 0 bytes

end Xdr.Text
