import Xdr.Proofs.Results
import Xdr.Proofs.Wire.Number
import Xdr.Wire.Pack

/-!
# What writers add

When a writer finishes, and with which bytes: the counterpart for packing of
what `Xdr.Proofs.Wire.Reader` says about unpacking.

## Main Statements

* `Packed.fixed_eq_wrote`, `Packed.counted_eq_wrote` — the checks of a
  length
* `Packed.fixedBlob_eq_wrote`, `Packed.blob_eq_wrote` — bytes and their
  padding
-/

namespace Xdr

open Output UInt32

namespace Packed

open Wire

variable {bytes : List UInt8}

theorem fixed_eq_wrote {required found items} :
    fixed required found items = .wrote bytes ↔ found = required.toNat ∧
      items = .wrote bytes := by
  rw [fixed]
  split
  · next hfound => simp [hfound]
  · next hfound => simp [hfound, failed_ne_wrote]

/-- A counted sequence within its limit is its number and then its items. -/
theorem counted_eq_wrote {limit found items} :
    counted limit found items = .wrote bytes ↔
      ∃ (count : UInt32) (back : List UInt8),
      found = count.toNat ∧ (∀ most ∈ limit, count ≤ most) ∧
        items = .wrote back ∧ bytes = wordBytes count ++ back := by
  simp only [counted]
  constructor
  · intro h
    split at h
    · next hfound =>
      obtain ⟨front, back, hfront, rfl, rfl⟩ := andThen_eq_wrote.mp h
      have hlt : found < size := Nat.lt_of_le_of_lt hfound (toNat_lt _)
      refine ⟨ofNat found, back, (toNat_ofNat_of_lt' hlt).symm, ?_, rfl, ?_⟩
      · rintro most hmost
        rw [Option.mem_def.mp hmost, Option.getD_some] at hfound
        rwa [le_iff_toNat_le, toNat_ofNat_of_lt' hlt]
      · rw [wrote_inj.mp hfront]
    · exact absurd h (failed_ne_wrote _ _)
  · rintro ⟨count, back, rfl, hlimit, rfl, rfl⟩
    have hle : count.toNat ≤ (limit.getD noLimit).toNat := by
      cases limit with
      | none => exact Nat.le_of_lt_succ count.toNat_lt
      | some most => exact le_iff_toNat_le.mp (hlimit most rfl)
    rw [if_pos hle, UInt32.ofNat_toNat]
    rfl

theorem fixedBlob_eq_wrote {required data} :
    fixedBlob required data = .wrote bytes ↔ data.length = required.toNat ∧
      bytes = padded data := by
  rw [fixedBlob, fixed_eq_wrote, wrote_inj, eq_comm (a := bytes)]

theorem blob_eq_wrote {limit data} :
    blob limit data = .wrote bytes ↔
      ∃ count : UInt32, data.length = count.toNat ∧ (∀ most ∈ limit, count ≤ most) ∧
        bytes = wordBytes count ++ padded data := by
  rw [blob, counted_eq_wrote]
  constructor
  · rintro ⟨count, back, hlen, hlimit, hback, rfl⟩
    exact ⟨count, hlen, hlimit, by rw [wrote_inj.mp hback]⟩
  · rintro ⟨count, hlen, hlimit, rfl⟩
    exact ⟨count, padded data, hlen, hlimit, rfl, rfl⟩

end Packed
end Xdr
