import Xdr.Text.Utf8

/-!
# Raw text

Text whose characters are bytes: the character with number `n` stands for
the byte `n`. Commands and scripts read their words and their input in this
form, since neither has to be well-formed.
-/

namespace Xdr.Text

/-- Characters that stand for bytes. -/
abbrev Raw := List Char

/-- The character that stands for a byte. -/
def rawChar (byte : UInt8) : Char :=
  Char.ofNat byte.toNat

/-- The characters that stand for some bytes. -/
def rawOfBytes (bytes : List UInt8) : Raw :=
  bytes.map rawChar

/-- The bytes of a raw text. -/
def rawBytes (text : Raw) : List UInt8 :=
  text.map fun c => UInt8.ofNat c.toNat

/-- A text in its raw form. -/
def raw (text : String) : Raw :=
  rawOfBytes (utf8 text)

/-- Whether a raw text stands before another one or is the same, by the
first character in which they differ. -/
def notAfter : Raw → Raw → Bool
  | [], _ => true
  | _ :: _, [] => false
  | a :: as, b :: bs => a.toNat < b.toNat || (a == b && notAfter as bs)

/-- The text that some bytes encode, where each longest beginning of a
character that does not go on as it should is replaced. Each step reads a
byte, so the number of bytes is enough of them. -/
def decodeSteps : Nat → List UInt8 → String
  | 0, _ => ""
  | steps + 1, bytes =>
    match utf8Fault? bytes with
    | none => (ofUtf8? bytes).getD ""
    | some fault =>
      let rest := match fault.length with
        | some length => decodeSteps steps (bytes.drop (fault.index + length))
        | none => ""
      (ofUtf8? (bytes.take fault.index)).getD "" ++ "�" ++ rest

/-- The text that some bytes encode, with a replacement for what is no
character. -/
def decode (bytes : List UInt8) : String :=
  decodeSteps (bytes.length + 1) bytes

/-- The text that a raw text encodes, with a replacement for what is no
character. -/
def ofRaw (text : Raw) : String :=
  decode (rawBytes text)

end Xdr.Text
