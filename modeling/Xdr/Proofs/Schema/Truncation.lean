import Xdr.Proofs.Schema.WireForm
import Xdr.Proofs.Wire.Extension

/-!
# Decoding longer and shorter inputs

On all beginnings of an input, decoding is one reader, and that reader is
incremental.  So what decoding does on some bytes it does on every longer
input, and an input that was cut off lacks bytes.

## Main Statements

* `Schema.exists_incremental` — decoding the beginnings of an input is one
  incremental reader
* `Schema.decode_append_of_ok`, `Schema.decode_append_of_error` — longer
  inputs
* `Schema.decode_take_of_ok` — shorter inputs

## Design Notes

`Schema.decode` counts names up to a limit that depends on the length of its
input, so it is no single reader.  A limit that suffices for an input
suffices for all beginnings of it, and with one limit it is.
-/

namespace Xdr

open List Unpack

namespace Schema

variable {schema : Schema} {rank : String → Nat} {bytes rest : List UInt8} {type : Ty}

/-- Any limit above the one for some bytes serves as well. -/
theorem decode_eq_on_of_le (hschema : schema.Productive rank) (type : Ty) {limit}
    (hle : schema.nestingLimit bytes ≤ limit) :
    schema.decode type bytes = (type.decode (schema.decodeNamed limit)).on bytes := by
  refine type.on_decode_congr (schema.advances_decodeNamed _) fun back hback name _ => ?_
  have hless := Nat.lt_of_lt_of_le (potential_lt_nestingLimit hschema name back)
    (nestingLimit_mono hback.length_le)
  exact on_decodeNamed_congr hschema _ hless (Nat.lt_of_lt_of_le hless hle)

/-- **Decoding the beginnings of an input is one incremental reader.** -/
theorem exists_incremental (hschema : schema.Productive rank) (type : Ty)
    (bytes : List UInt8) : ∃ reader : Unpack Value, Incremental reader ∧
      ∀ front, front <+: bytes → schema.decode type front = reader.on front :=
  ⟨type.decode (schema.decodeNamed (schema.nestingLimit bytes)),
    type.closed_decode closed_incremental (schema.closed_decodeNamed closed_incremental _),
    fun _ hfront => decode_eq_on_of_le hschema type (nestingLimit_mono hfront.length_le)⟩

/-- A value is read from every longer input, and what was added is left. -/
theorem decode_append_of_ok (hschema : schema.Productive rank) {value}
    (h : schema.decode type bytes = (.ok value, rest)) (more : List UInt8) :
    schema.decode type (bytes ++ more) = (.ok value, rest ++ more) := by
  obtain ⟨reader, hreader, hdecode⟩ := exists_incremental hschema type (bytes ++ more)
  rw [hdecode _ (prefix_append bytes more)] at h
  rw [hdecode _ (prefix_refl _)]
  exact hreader.ok h more

/-- A fault other than a lack of bytes is found in every longer input. -/
theorem decode_append_of_error (hschema : schema.Productive rank) {error}
    (h : schema.decode type bytes = (.error error, rest))
    (hkind : ∀ needed, error ≠ .endOfInput needed) (more : List UInt8) :
    schema.decode type (bytes ++ more) = (.error error, rest ++ more) := by
  obtain ⟨reader, hreader, hdecode⟩ := exists_incremental hschema type (bytes ++ more)
  rw [hdecode _ (prefix_append bytes more)] at h
  rw [hdecode _ (prefix_refl _)]
  exact hreader.error h hkind more

/-- **An input that was cut off lacks bytes**: at least one, and at most as
many as were cut off from those that were taken. -/
theorem decode_take_of_ok (hschema : schema.Productive rank) {taken : List UInt8}
    {value : Value}
    (h : schema.decode type (taken ++ rest) = (.ok value, rest)) {count : Nat}
    (hcount : count < taken.length) :
    ∃ needed left,
    schema.decode type (taken.take count) = (.error (.endOfInput needed), left) ∧
      0 < needed ∧ needed ≤ taken.length - count := by
  have hwhole : schema.decode type taken = (.ok value, []) := by
    obtain ⟨taken', happend, hform⟩ := (decode_eq_ok hschema).mp h
    obtain rfl : taken = taken' := append_cancel_right happend
    exact (decode_eq_ok hschema).mpr ⟨taken, (append_nil taken).symm, hform⟩
  obtain ⟨reader, hreader, hdecode⟩ := exists_incremental hschema type taken
  rw [hdecode _ (prefix_refl _), ← take_append_drop count taken] at hwhole
  have hdrop : taken.drop count ≠ [] := by
    rw [Ne, drop_eq_nil_iff]
    omega
  obtain ⟨needed, left, hshort, hpos, hle⟩ := hreader.short_of_front hwhole hdrop
  rw [length_drop] at hle
  rw [hdecode _ ⟨taken.drop count, take_append_drop count taken⟩]
  exact ⟨needed, left, hshort, hpos, hle⟩

end Schema
end Xdr
