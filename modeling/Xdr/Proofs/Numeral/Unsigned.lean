import Mathlib.Data.List.TakeWhile
import Xdr.Proofs.Numeral.Value

/-!
# Literals of unsigned integers

The canonical spelling of a literal that stands for no negative integer has
no sign, with one exception: the minus of a zero is dropped only from
several decimal zeros, and not from a single one or from hexadecimal ones.

## Main Statements

* `Numeral.negativeZero_of_minus` — no other literal that is not negative
  keeps it
* `Numeral.unsigned_iff` — the canonical spelling is unsigned if and only if
  the literal is no such zero
-/

namespace Xdr.Numeral

open List

variable {base : Nat} {cs digits body : List Char}

/-- A zero that keeps its minus: a single decimal one, or hexadecimal ones. -/
inductive NegativeZero : List Char → Prop where
  | decimal : NegativeZero ['-', '0']
  | hex {mark zeros} (hmark : mark = 'x' ∨ mark = 'X') (hne : zeros ≠ [])
      (h : ∀ c ∈ zeros, c = '0') : NegativeZero ('-' :: '0' :: mark :: zeros)

/-! ### Zeros -/

theorem eq_zero_of_digitValue? {c} (h : digitValue? c = some 0) : c = '0' := by
  have hnat : c.toNat = 48 := by
    have hcases := digitValue?_eq_some.mp h
    omega
  rw [← Char.ofNat_toNat c, hnat]

/-- Digits that stand for zero are zeros. -/
theorem eq_zero_of_positional_eq_zero (hbase : 0 < base)
    (hdigits : ∀ c ∈ digits, isDigitIn base c = true)
    (h : positional base digits = 0) : ∀ c ∈ digits, c = '0' := by
  induction digits with
  | nil => exact fun c hc => absurd hc not_mem_nil
  | cons c cs ih =>
    rw [forall_mem_cons] at hdigits ⊢
    rw [positional_cons, Nat.add_eq_zero_iff, Nat.mul_eq_zero] at h
    obtain ⟨hfirst, hrest⟩ := h
    have hpower : base ^ cs.length ≠ 0 := (Nat.pow_pos hbase).ne'
    obtain ⟨value, hvalue, -⟩ := isDigitIn_eq_true.mp hdigits.1
    have hzero : value = 0 :=
      (digitNumber_of_digitValue? hvalue).symm.trans (hfirst.resolve_right hpower)
    exact ⟨eq_zero_of_digitValue? (hzero ▸ hvalue), ih hdigits.2 hrest⟩

/-! ### Signs -/

/-- A minus in a spelling is the sign in front of it. -/
theorem minus_mem_of_spelling {sign} (hdigits : '-' ∉ digits)
    (h : '-' ∈ spelling sign digits) : '-' ∈ sign := by
  unfold spelling at h
  split at h
  · simp_all
  · split at h
    · split at h
      · simp at h
      · have hrest : '-' ∉ digits.dropWhile (· == '0') :=
          fun hmem => hdigits ((dropWhile_suffix _).mem hmem)
        simp_all
    · simp_all

/-- Octal zeros become a single one, whatever their sign. -/
theorem spelling_of_zeros (hhex : hexBody? digits = none) (hoctal : Octal digits)
    (hzeros : ∀ c ∈ digits, c = '0') (sign : List Char) : spelling sign digits = ['0'] := by
  have hmark : ∀ hex, digits = '0' :: 'X' :: hex → False := by
    rintro hex rfl
    cases hhex
  have hdrop : digits.dropWhile (· == '0') = [] :=
    dropWhile_eq_nil_iff.mpr fun c hc => beq_iff_eq.mpr (hzeros c hc)
  simp only [spelling]
  rw [if_pos (isOctal_eq_true.mpr hoctal), hdrop]

/-- A single zero is not octal, and several are. -/
theorem eq_zero_of_not_octal (hne : digits ≠ []) (hzeros : ∀ c ∈ digits, c = '0')
    (hoctal : ¬ Octal digits) : digits = ['0'] := by
  obtain ⟨c, rest, rfl⟩ := exists_cons_of_ne_nil hne
  obtain rfl := hzeros c mem_cons_self
  cases rest with
  | nil => rfl
  | cons d rest =>
    refine absurd ⟨by simp, rfl, fun c hc => ?_⟩ hoctal
    rw [hzeros c hc]
    decide

/-- **Which literals keep their minus**, of those that are not negative. -/
theorem negativeZero_of_minus (h : check cs = none) (hmeaning : 0 ≤ meaning cs)
    (hminus : '-' ∈ canonical cs) : NegativeZero cs := by
  obtain ⟨n, hn, -⟩ := exists_checked h
  rw [canonical_eq_spelling (head_ne_of_checked hn)] at hminus
  have hsign := minus_mem_of_spelling (notMem_of_checked hn (by decide) (by decide)) hminus
  rcases splitSign_cases cs with ⟨hcs, hnegative⟩ | ⟨-, hpositive⟩ | ⟨-, hpositive⟩
  · generalize (splitSign cs).2 = digits at *
    rw [hnegative] at hminus
    subst hcs
    have hzero : amount digits = 0 := by
      have hneg : meaning ('-' :: digits) = -(amount digits : Int) := rfl
      omega
    rcases checked?_eq_some.mp hn with ⟨hex, hhex, hne, hdigits, -⟩ | ⟨hhex, hne, hdigits, -⟩
    · rw [amount_of_hexBody? hhex] at hzero
      have hzeros := eq_zero_of_positional_eq_zero (by decide) hdigits hzero
      rcases hexBody?_eq_some hhex with rfl | rfl
      · exact .hex (.inl rfl) hne hzeros
      · exact .hex (.inr rfl) hne hzeros
    · rw [amount_of_decimal hhex] at hzero
      by_cases hoctal : Octal digits
      · rw [if_pos hoctal] at hzero
        have height : ∀ c ∈ digits, isDigitIn 8 c = true := fun c hc =>
          isDigitIn_eight.mpr (hoctal.below c hc)
        have hzeros := eq_zero_of_positional_eq_zero (by decide) height hzero
        rw [spelling_of_zeros hhex hoctal hzeros] at hminus
        exact absurd hminus (by decide)
      · rw [if_neg hoctal] at hzero
        have hzeros := eq_zero_of_positional_eq_zero (by decide) hdigits hzero
        obtain rfl := eq_zero_of_not_octal hne hzeros hoctal
        exact .decimal
  · rw [hpositive] at hsign
    cases hsign
  · rw [hpositive] at hsign
    cases hsign

theorem minus_mem_of_negativeZero (h : NegativeZero cs) : '-' ∈ canonical cs := by
  cases h with
  | decimal => decide
  | @hex mark zeros hmark hne hzeros =>
    have hplain : Plain ('0' :: 'x' :: zeros) (positional 16 zeros) := by
      refine ⟨.hex hne fun c hc => ?_,
        fun hoctal => absurd (hoctal.below 'x' (by simp)) (by decide)⟩
      rw [hzeros c hc]
      decide
    rcases hmark with rfl | rfl
    · have hcanonical : canonical ('-' :: '0' :: 'x' :: zeros) = '-' :: '0' :: 'x' :: zeros :=
        hplain.canonical_eq true
      rw [hcanonical]
      exact mem_cons_self
    · exact mem_cons_self

/-- **The canonical spelling of a literal that is not negative** has a minus
if and only if the literal is one of those zeros, and is otherwise the
literal of an unsigned integer, the one that it stands for. -/
theorem minus_mem_canonical_iff (h : check cs = none) (hmeaning : 0 ≤ meaning cs) :
    '-' ∈ canonical cs ↔ NegativeZero cs :=
  ⟨negativeZero_of_minus h hmeaning, minus_mem_of_negativeZero⟩

theorem unsigned_iff {n : Nat} (h : check cs = none) (hmeaning : meaning cs = n) :
    Unsigned (canonical cs) n ↔ ¬ NegativeZero cs := by
  rw [← minus_mem_canonical_iff h (by omega)]
  refine ⟨fun hunsigned => hunsigned.notMem (by decide) (by decide), fun hminus => ?_⟩
  obtain ⟨negative, body, m, hcanonical, hplain, hm, -⟩ := exists_plain h
  rw [hcanonical] at hminus ⊢
  cases negative with
  | true => exact absurd mem_cons_self hminus
  | false =>
    obtain rfl : m = n := Int.ofNat_inj.mp (hm.symm.trans hmeaning)
    exact hplain.unsigned

end Xdr.Numeral
