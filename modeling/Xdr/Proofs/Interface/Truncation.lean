import Xdr.Proofs.Interface.Codec
import Xdr.Proofs.Schema.Truncation

/-!
# Sample values in longer and shorter inputs

## Main Statements

* `SampleType.fromBinary_determined_by_taken` — reading depends only on the
  bytes it takes
-/

namespace Xdr.SampleType

theorem fromBinary_eq_error {sample : SampleType} {bytes error} :
    sample.fromBinary bytes = .error error ↔
      ∃ rest, sample.schema.decode sample.type bytes = (.error error, rest) := by
  rw [fromBinary]
  rcases sample.schema.decode sample.type bytes with ⟨found | value, left⟩ <;> simp

/-- **Reading depends only on the bytes it takes.**  A value that is read
from some bytes is read from every longer input, and a fault other than a
lack of bytes is found in every longer input.  Of the bytes that were taken,
every beginning that is not all of them lacks bytes: at least one, and at
most as many as were cut off. -/
theorem fromBinary_determined_by_taken (sample : SampleType) (bytes : List UInt8) :
    (∀ value rest, sample.fromBinary bytes = .ok (value, rest) →
      ∀ more, sample.fromBinary (bytes ++ more) = .ok (value, rest ++ more)) ∧
    (∀ error, sample.fromBinary bytes = .error error →
      (∀ needed, error ≠ .endOfInput needed) →
      ∀ more, sample.fromBinary (bytes ++ more) = .error error) ∧
    (∀ value rest, sample.fromBinary bytes = .ok (value, rest) →
      ∃ taken, bytes = taken ++ rest ∧ ∀ count < taken.length,
        ∃ needed, sample.fromBinary (taken.take count) = .error (.endOfInput needed) ∧
          1 ≤ needed ∧ needed ≤ taken.length - count) := by
  obtain ⟨rank, hschema⟩ := sample.wellFormed.productive
  refine ⟨fun value rest h more => ?_, fun error h hkind more => ?_, fun value rest h => ?_⟩
  · exact fromBinary_eq_ok.mpr (Schema.decode_append_of_ok hschema
      (fromBinary_eq_ok.mp h) more)
  · obtain ⟨left, hleft⟩ := fromBinary_eq_error.mp h
    exact fromBinary_eq_error.mpr ⟨_, Schema.decode_append_of_error hschema hleft hkind more⟩
  · have hdecode := fromBinary_eq_ok.mp h
    obtain ⟨taken, rfl, -⟩ := (Schema.decode_eq_ok hschema).mp hdecode
    refine ⟨taken, rfl, fun count hcount => ?_⟩
    obtain ⟨needed, left, hshort, hpos, hle⟩ :=
      Schema.decode_take_of_ok hschema hdecode hcount
    exact ⟨needed, fromBinary_eq_error.mpr ⟨left, hshort⟩, hpos, hle⟩

/-- Two nodes with a byte after them, and a node whose second word is no
truth value.  Of the two nodes three bytes are cut off, in the second of
them. -/
theorem fromBinary_determined_by_taken_node :
    (∀ more, node.fromBinary ([0, 0, 0, 5, 0, 0, 0, 1, 0, 0, 0, 6, 0, 0, 0, 0, 9] ++ more) =
      .ok (.record [.int 5,
        .union (.bool true) [.present (.record [.int 6, .union (.bool false) [.absent]])]],
        9 :: more)) ∧
    (∀ more, node.fromBinary ([0, 0, 0, 5, 0, 0, 0, 2] ++ more) = .error (.badBool 2)) ∧
    ∃ needed,
      node.fromBinary [0, 0, 0, 5, 0, 0, 0, 1, 0, 0, 0, 6, 0] = .error (.endOfInput needed) ∧
      1 ≤ needed ∧ needed ≤ 3 := by
  have hread : node.fromBinary [0, 0, 0, 5, 0, 0, 0, 1, 0, 0, 0, 6, 0, 0, 0, 0, 9] =
      .ok (.record [.int 5, .union (.bool true) [.present (.record [.int 6,
        .union (.bool false) [.absent]])]], [9]) := rfl
  obtain ⟨hlonger, -, hshorter⟩ := fromBinary_determined_by_taken node _
  obtain ⟨-, hfault, -⟩ := fromBinary_determined_by_taken node [0, 0, 0, 5, 0, 0, 0, 2]
  obtain ⟨taken, htaken, hcut⟩ := hshorter _ _ hread
  obtain rfl : taken = [0, 0, 0, 5, 0, 0, 0, 1, 0, 0, 0, 6, 0, 0, 0, 0] :=
    List.append_cancel_right htaken.symm
  exact ⟨hlonger _ _ hread, hfault _ rfl nofun, hcut 13 (by decide)⟩

end Xdr.SampleType
