import Mathlib.Algebra.Group.Nat.Defs
import Xdr.Wire.Word

/-!
# Numbers as bytes

`Wire.bytesOf` and `Wire.numberOf` undo each other, in both directions: on
every number that fits its bytes, and on every run of bytes.  The second
direction is what makes a word of the input reproducible, whatever a
stranger wrote into it.

## Main Statements

* `numberOf_bytesOf` — reading what was written, up to the high part that
  does not fit
* `bytesOf_numberOf` — writing what was read
* `alignment_dvd_add_padding` — an item and its padding end on a word
  boundary
-/

namespace Xdr.Wire

open List Nat

/-! ### The number that bytes stand for -/

/-- An accumulator in front of some bytes counts as their high part. -/
theorem foldl_number (bytes : List UInt8) (start : Nat) :
    bytes.foldl (fun number byte => number * 256 + byte.toNat) start =
      start * 256 ^ bytes.length + numberOf bytes := by
  induction bytes generalizing start with
  | nil => simp [numberOf]
  | cons byte bytes ih =>
    have hzero : numberOf (byte :: bytes) =
        byte.toNat * 256 ^ bytes.length + numberOf bytes := by
      rw [numberOf, foldl_cons, ih, Nat.zero_mul, Nat.zero_add]
    rw [foldl_cons, ih, hzero, length_cons, Nat.pow_succ, Nat.add_mul,
      mul_assoc, mul_comm 256, add_assoc]

@[simp] theorem numberOf_nil : numberOf [] = 0 := rfl

theorem numberOf_cons (byte : UInt8) (bytes : List UInt8) :
    numberOf (byte :: bytes) = byte.toNat * 256 ^ bytes.length + numberOf bytes := by
  rw [numberOf, foldl_cons, foldl_number, Nat.zero_mul, Nat.zero_add]

/-- Some bytes stand for a number that fits them. -/
theorem numberOf_lt (bytes : List UInt8) : numberOf bytes < 256 ^ bytes.length := by
  induction bytes with
  | nil => simp
  | cons byte bytes ih =>
    have hbyte : byte.toNat + 1 ≤ 256 := byte.toNat_lt
    have hhigh := mul_le_mul_right (256 ^ bytes.length) hbyte
    rw [Nat.add_mul, Nat.one_mul] at hhigh
    rw [numberOf_cons, length_cons, pow_succ, mul_comm _ 256]
    omega

/-! ### The bytes of a number -/

theorem bytesOf_succ (width n : Nat) :
    bytesOf (width + 1) n = UInt8.ofNat (n / 256 ^ width) :: bytesOf width n := rfl

@[simp] theorem length_bytesOf (width n : Nat) : (bytesOf width n).length = width := by
  induction width with
  | zero => rfl
  | succ width ih => rw [bytesOf_succ, length_cons, ih]

/-- **Reading what was written.**  Only the part of a number that does not
fit is lost. -/
theorem numberOf_bytesOf (width n : Nat) : numberOf (bytesOf width n) = n % 256 ^ width := by
  induction width with
  | zero => simp [bytesOf, mod_one]
  | succ width ih =>
    rw [bytesOf_succ, numberOf_cons, length_bytesOf, ih, UInt8.toNat_ofNat',
      mod_pow_succ (b := 256), add_comm, mul_comm]

/-- Bytes of the same number that stand for the same number are the same. -/
theorem eq_of_numberOf_eq :
    ∀ {first second : List UInt8}, first.length = second.length →
      numberOf first = numberOf second → first = second
  | [], [], _, _ => rfl
  | byte :: bytes, byte' :: bytes', hlen, hnum => by
      have hlen' : bytes.length = bytes'.length := succ.inj hlen
      have hlow := numberOf_lt bytes
      have hlow' := numberOf_lt bytes'
      rw [numberOf_cons, numberOf_cons, hlen'] at hnum
      rw [hlen'] at hlow
      -- The low parts are remainders by the weight of the first byte, so both digits are
      -- determined.
      have hrest : numberOf bytes = numberOf bytes' := by
        have := congrArg (· % 256 ^ bytes'.length) hnum
        simpa [mul_add_mod_of_lt, mod_eq_of_lt hlow, mod_eq_of_lt hlow'] using this
      have hhead : byte.toNat = byte'.toNat := by
        rw [hrest] at hnum
        exact eq_of_mul_eq_mul_right (by have := hlow'; omega) (add_right_cancel hnum)
      rw [UInt8.toNat_inj.mp hhead, eq_of_numberOf_eq hlen' hrest]

/-- **Writing what was read.**  Every run of bytes is the spelling of the
number it stands for. -/
theorem bytesOf_numberOf (bytes : List UInt8) :
    bytesOf bytes.length (numberOf bytes) = bytes := by
  refine eq_of_numberOf_eq (length_bytesOf _ _) ?_
  rw [numberOf_bytesOf, mod_eq_of_lt (numberOf_lt bytes)]

/-! ### Words -/

@[simp] theorem length_wordBytes (word : UInt32) : (wordBytes word).length = 4 :=
  length_bytesOf _ _

@[simp] theorem length_longBytes (word : UInt64) : (longBytes word).length = 8 :=
  length_bytesOf _ _

theorem ofNat_numberOf_wordBytes (word : UInt32) :
    UInt32.ofNat (numberOf (wordBytes word)) = word := by
  have hlt : word.toNat < 256 ^ 4 := word.toNat_lt
  rw [wordBytes, numberOf_bytesOf, mod_eq_of_lt hlt, UInt32.ofNat_toNat]

theorem ofNat_numberOf_longBytes (word : UInt64) :
    UInt64.ofNat (numberOf (longBytes word)) = word := by
  have hlt : word.toNat < 256 ^ 8 := word.toNat_lt
  rw [longBytes, numberOf_bytesOf, mod_eq_of_lt hlt, UInt64.ofNat_toNat]

/-- Four bytes are those of the word they stand for. -/
theorem wordBytes_ofNat_numberOf {bytes : List UInt8} (hlen : bytes.length = 4) :
    wordBytes (UInt32.ofNat (numberOf bytes)) = bytes := by
  have hlt := numberOf_lt bytes
  rw [hlen] at hlt
  rw [wordBytes, UInt32.toNat_ofNat_of_lt' hlt, ← hlen, bytesOf_numberOf]

/-- Eight bytes are those of the long word they stand for. -/
theorem longBytes_ofNat_numberOf {bytes : List UInt8} (hlen : bytes.length = 8) :
    longBytes (UInt64.ofNat (numberOf bytes)) = bytes := by
  have hlt := numberOf_lt bytes
  rw [hlen] at hlt
  rw [longBytes, UInt64.toNat_ofNat_of_lt' hlt, ← hlen, bytesOf_numberOf]

/-! ### Padding -/

/-- An item and its padding end on a word boundary. -/
theorem alignment_dvd_add_padding (length : Nat) : 4 ∣ length + padding length := by
  simp only [padding, alignment]
  omega

end Xdr.Wire
