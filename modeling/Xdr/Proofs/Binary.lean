import Mathlib.Algebra.Order.Field.Power
import Mathlib.Algebra.Order.Field.Rat
import Mathlib.Data.Int.Log
import Mathlib.Data.Rat.Floor
import Mathlib.Tactic.FieldSimp
import Mathlib.Tactic.Linarith
import Mathlib.Tactic.Positivity
import Mathlib.Tactic.Ring
import Xdr.Binary

/-!
# Exact conversions between binary formats

A number that a format holds is the nearest one to itself, so a number that
goes from a narrow format to a wider one and back is unchanged.

## Main Statements

* `Binary.magnitude_pattern`, `Binary.holds_of_magnitude` — bit patterns and
  forms determine each other
* `Binary.nearest_eq_pattern` — a ratio that a format holds is not rounded
* `Binary.convert_convert` — a finite number survives the way through a
  wider format

## Design Notes

Rounding is compared with the logarithm and the powers of rational numbers,
where a scaled ratio is just a quotient.
-/

namespace Xdr.Binary

open Format Nat

variable {bits den : Nat}

/-- The number that a significand and an exponent stand for. -/
def valueOf (significand : Nat) (exponent : Int) : ℚ :=
  significand * (2 : ℚ) ^ exponent

/-- The bit pattern of a significand and an exponent, without a sign. -/
def Format.pattern (format : Format) (significand : Nat) (exponent : Int) : Nat :=
  (exponent - format.leastExponent).toNat * 2 ^ format.fractionBits + significand

/-- The form in which a format holds a number: the significand fills its
places, unless the exponent is the least one, and the bit pattern is below
that of infinity. -/
structure Format.Holds (format : Format) (significand : Nat) (exponent : Int) : Prop where
  significand_lt : significand < 2 ^ (format.fractionBits + 1)
  least_le : format.leastExponent ≤ exponent
  full : 2 ^ format.fractionBits ≤ significand ∨ exponent = format.leastExponent
  pattern_lt : format.pattern significand exponent < format.infinity

variable {format : Format} {significand : Nat} {exponent : Int}

/-! ### Bit patterns and forms -/

theorem Format.pattern_lt_infinity (hsig : significand < 2 ^ (format.fractionBits + 1))
    (hexponent : (exponent - format.leastExponent).toNat + 2 < 2 ^ format.exponentBits) :
    format.pattern significand exponent < format.infinity := by
  have hexp : (exponent - format.leastExponent).toNat + 2 ≤ 2 ^ format.exponentBits - 1 :=
    le_sub_one_of_lt hexponent
  calc format.pattern significand exponent
      < (exponent - format.leastExponent).toNat * 2 ^ format.fractionBits
          + 2 ^ (format.fractionBits + 1) := Nat.add_lt_add_left hsig _
    _ = ((exponent - format.leastExponent).toNat + 2) * 2 ^ format.fractionBits := by ring
    _ ≤ (2 ^ format.exponentBits - 1) * 2 ^ format.fractionBits := mul_le_mul_right _ hexp

theorem Format.infinity_lt_signBit (format : Format) : format.infinity < format.signBit := by
  have hpow : 0 < 2 ^ format.exponentBits := by positivity
  have hlt : (2 ^ format.exponentBits - 1) * 2 ^ format.fractionBits
      < 2 ^ format.exponentBits * 2 ^ format.fractionBits :=
    mul_lt_mul_of_pos_right (sub_one_lt_of_lt hpow) (by positivity)
  rwa [← pow_add] at hlt

/-- The bit pattern of a form stands for that form. -/
theorem magnitude_pattern (h : format.Holds significand exponent) :
    magnitude format (format.pattern significand exponent) =
      .finite significand exponent := by
  have hpos : 0 < 2 ^ format.fractionBits := by positivity
  have hleast := h.least_le
  have hbelow := h.pattern_lt
  rw [infinity, pow_eq, pow_eq] at hbelow
  set count := (exponent - format.leastExponent).toNat with hcount
  have hsig : significand < 2 ^ format.fractionBits + 2 ^ format.fractionBits := by
    have := h.significand_lt
    rw [pow_succ] at this
    omega
  have hpattern : format.pattern significand exponent =
      count * 2 ^ format.fractionBits + significand := rfl
  by_cases hfull : 2 ^ format.fractionBits ≤ significand
  · -- The leading one of the significand counts as one more in the exponent field.
    have hsplit : format.pattern significand exponent =
        (significand - 2 ^ format.fractionBits) + 2 ^ format.fractionBits * (count + 1) := by
      rw [hpattern, mul_add, mul_comm count]
      omega
    have hlow : significand - 2 ^ format.fractionBits < 2 ^ format.fractionBits := by omega
    have hmod : format.pattern significand exponent % 2 ^ format.fractionBits =
        significand - 2 ^ format.fractionBits := by
      rw [hsplit, add_mul_mod_self_left, mod_eq_of_lt hlow]
    have hdiv :
      format.pattern significand exponent / 2 ^ format.fractionBits = count + 1 := by
      rw [hsplit, add_mul_div_left _ _ hpos, div_eq_of_lt hlow, zero_add]
    have hcountLt : count + 1 < 2 ^ format.exponentBits - 1 := by
      refine Nat.lt_of_mul_lt_mul_right (a := 2 ^ format.fractionBits)
        (Nat.lt_of_le_of_lt ?_ hbelow)
      rw [hsplit, mul_comm]
      exact le_add_left _ _
    have hfield : (count + 1) % 2 ^ format.exponentBits = count + 1 := mod_eq_of_lt (by omega)
    simp only [magnitude, pow_eq, hmod, hdiv, hfield]
    rw [if_neg (by omega), if_neg (by omega)]
    congr 1
    · omega
    · omega
  · have hexponent : exponent = format.leastExponent := h.full.resolve_left hfull
    have hzero : count = 0 := by omega
    rw [not_le] at hfull
    have hmod :
      format.pattern significand exponent % 2 ^ format.fractionBits = significand := by
      rw [hpattern, hzero, zero_mul, zero_add, mod_eq_of_lt hfull]
    have hdiv : format.pattern significand exponent / 2 ^ format.fractionBits = 0 := by
      rw [hpattern, hzero, zero_mul, zero_add, div_eq_of_lt hfull]
    have hnumbers : 2 ^ format.exponentBits - 1 ≠ 0 := by
      intro hnone
      rw [hnone, zero_mul] at hbelow
      exact not_lt_zero _ hbelow
    simp only [magnitude, pow_eq, hmod, hdiv, zero_mod]
    rw [if_neg hnumbers.symm, if_pos trivial, hexponent]

/-- What a bit pattern stands for, if it is finite, is in the form that the
format holds, and the pattern is that of this form. -/
theorem holds_of_magnitude (h : magnitude format bits = .finite significand exponent) :
    format.Holds significand exponent ∧
    bits % format.signBit = format.pattern significand exponent := by
  have hpos : 0 < 2 ^ format.fractionBits := by positivity
  have hfraction : bits % 2 ^ format.fractionBits < 2 ^ format.fractionBits := mod_lt _ hpos
  have hfield :
    bits / 2 ^ format.fractionBits % 2 ^ format.exponentBits < 2 ^ format.exponentBits :=
    mod_lt _ (by positivity)
  have hbits :
    bits % format.signBit = bits / 2 ^ format.fractionBits % 2 ^ format.exponentBits *
      2 ^ format.fractionBits + bits % 2 ^ format.fractionBits := by
    have hsign : format.signBit = 2 ^ format.fractionBits * 2 ^ format.exponentBits := by
      rw [signBit, pow_eq, pow_add, mul_comm]
    rw [hsign, mod_mul, mul_comm, add_comm]
  have hdouble :
    2 ^ (format.fractionBits + 1) = 2 ^ format.fractionBits + 2 ^ format.fractionBits := by
    rw [pow_succ, mul_two]
  simp only [magnitude, pow_eq] at h
  set fraction := bits % 2 ^ format.fractionBits
  set field := bits / 2 ^ format.fractionBits % 2 ^ format.exponentBits
  split at h
  · split at h <;> cases h
  · next hfinite =>
    have hbelow : bits % format.signBit < format.infinity := by
      have hle : (field + 1) * 2 ^ format.fractionBits ≤
          (2 ^ format.exponentBits - 1) * 2 ^ format.fractionBits :=
            mul_le_mul_right _ (by omega)
      rw [succ_mul] at hle
      rw [hbits, infinity, pow_eq, pow_eq]
      omega
    split at h
    · next hzero =>
      injection h with hsig hexp
      subst hsig hexp
      have hpattern :
        bits % format.signBit = format.pattern fraction format.leastExponent := by
        rw [hbits, pattern, hzero, sub_self, Int.toNat_zero]
      exact ⟨⟨by omega, le_rfl, .inr rfl, hpattern ▸ hbelow⟩, hpattern⟩
    · next hpositive =>
      injection h with hsig hexp
      subst hsig hexp
      have hcount :
        (format.leastExponent + field - 1 - format.leastExponent).toNat = field - 1 := by
        omega
      have hpattern : bits % format.signBit =
          format.pattern (fraction + 2 ^ format.fractionBits)
            (format.leastExponent + field - 1) := by
        rw [hbits, pattern, hcount, add_comm fraction, ← add_assoc, ← succ_mul]
        congr 2
        omega
      exact ⟨⟨by omega, by omega, .inl (le_add_left _ _), hpattern ▸ hbelow⟩, hpattern⟩

/-! ### Ratios -/

theorem scale_value (num : Nat) (hden : 0 < den) (exponent : Int) :
    0 < (scale num den exponent).2 ∧
      ((scale num den exponent).1 : ℚ) / (scale num den exponent).2 =
        num / den / (2 : ℚ) ^ exponent := by
  rw [scale]
  split
  · next h =>
    obtain ⟨power, rfl⟩ := Int.eq_ofNat_of_zero_le h
    refine ⟨by simp only [pow_eq]; positivity, ?_⟩
    simp [div_div]
  · next h =>
    obtain ⟨power, hpower⟩ := Int.eq_ofNat_of_zero_le (show 0 ≤ -exponent by omega)
    obtain rfl : exponent = -(power : Int) := by omega
    refine ⟨hden, ?_⟩
    simp [mul_div_right_comm]

theorem ratio_value (significand : Nat) (exponent : Int) :
    0 < (ratio significand exponent).2 ∧
      ((ratio significand exponent).1 : ℚ) / (ratio significand exponent).2 =
        valueOf significand exponent := by
  obtain ⟨hpos, hvalue⟩ := scale_value significand one_pos (-exponent)
  refine ⟨hpos, ?_⟩
  rw [ratio, hvalue, valueOf, zpow_neg]
  simp

/-- The exponent that is found for a ratio is its logarithm. -/
theorem logRatio_eq_log {num} (hnum : 0 < num) (hden : 0 < den) :
    logRatio num den = Int.log 2 ((num : ℚ) / den) := by
  have hden' : (0 : ℚ) < den := by exact_mod_cast hden
  have hvalue : (0 : ℚ) < num / den := by positivity
  have hnumLe : (2 : ℚ) ^ (num.log2 : Int) ≤ num := by
    exact_mod_cast log2_self_le hnum.ne'
  have hnumLt : (num : ℚ) < 2 ^ ((num.log2 : Int) + 1) := by
    exact_mod_cast lt_log2_self (n := num)
  have hdenLe : (2 : ℚ) ^ (den.log2 : Int) ≤ den := by
    exact_mod_cast log2_self_le hden.ne'
  have hdenLt : (den : ℚ) < 2 ^ ((den.log2 : Int) + 1) := by
    exact_mod_cast lt_log2_self (n := den)
  set guess : Int := (num.log2 : Int) - den.log2 with hguess
  have hupper : (num : ℚ) / den < 2 ^ (guess + 1) := by
    rw [div_lt_iff₀ hden']
    calc (num : ℚ) < 2 ^ ((num.log2 : Int) + 1) := hnumLt
      _ = 2 ^ (guess + 1) * 2 ^ (den.log2 : Int) := by
          rw [← zpow_add₀ two_ne_zero]
          congr 1
          omega
      _ ≤ 2 ^ (guess + 1) * den := by gcongr
  have hlower : (2 : ℚ) ^ (guess - 1) ≤ num / den := by
    rw [le_div_iff₀ hden']
    calc (2 : ℚ) ^ (guess - 1) * den
        ≤ 2 ^ (guess - 1) * 2 ^ ((den.log2 : Int) + 1) := by gcongr
      _ = 2 ^ (num.log2 : Int) := by
          rw [← zpow_add₀ two_ne_zero]
          congr 1
          omega
      _ ≤ num := hnumLe
  have hlogLt : Int.log 2 ((num : ℚ) / den) < guess + 1 :=
    (Int.lt_zpow_iff_log_lt one_lt_two hvalue).mp (by exact_mod_cast hupper)
  have hlogLe : guess - 1 ≤ Int.log 2 ((num : ℚ) / den) :=
    (Int.zpow_le_iff_le_log one_lt_two hvalue).mp (by exact_mod_cast hlower)
  obtain ⟨hpos, hscaled⟩ := scale_value num hden guess
  have hpos' : (0 : ℚ) < (scale num den guess).2 := by exact_mod_cast hpos
  -- The scaled ratio is below one exactly if the guess was too large.
  have hless : (scale num den guess).1 < (scale num den guess).2 ↔
    (num : ℚ) / den < 2 ^ guess := by
    have hpow : (0 : ℚ) < 2 ^ guess := by positivity
    rw [← cast_lt (α := ℚ), ← div_lt_one hpos', hscaled, div_lt_one hpow]
  have hlog : (num : ℚ) / den < 2 ^ guess ↔ Int.log 2 ((num : ℚ) / den) < guess := by
    have := Int.lt_zpow_iff_log_lt (R := ℚ) one_lt_two (x := guess) hvalue
    exact_mod_cast this
  show (if (scale num den guess).1 < (scale num den guess).2 then guess - 1 else guess) = _
  split
  · next h =>
    have hlogLess := hlog.mp (hless.mp h)
    omega
  · next h =>
    have hlogGe := mt (fun hlt => hless.mpr (hlog.mpr hlt)) h
    omega

/-! ### No rounding -/

theorem halfEven_mul_right (num : Nat) (hden : 0 < den) : halfEven (num * den) den = num := by
  simp [halfEven, Nat.mul_div_cancel _ hden, hden]

/-- The logarithm of a number that a format holds tells where its last place
is. -/
theorem Format.Holds.max_log_eq (h : format.Holds significand exponent)
    (hpos : 0 < significand) :
    max (Int.log 2 (valueOf significand exponent) - format.fractionBits)
      format.leastExponent =
      exponent := by
  have hvalue : 0 < valueOf significand exponent := by
    rw [valueOf]
    positivity
  have hpow : (0 : ℚ) < 2 ^ exponent := by positivity
  have hupper :
    Int.log 2 (valueOf significand exponent) < format.fractionBits + 1 + exponent := by
    refine (Int.lt_zpow_iff_log_lt one_lt_two hvalue).mp ?_
    have hlt : (significand : ℚ) < 2 ^ ((format.fractionBits : Int) + 1) := by
      exact_mod_cast h.significand_lt
    rw [cast_two, zpow_add₀ two_ne_zero, valueOf]
    exact mul_lt_mul_of_pos_right hlt hpow
  have hleast := h.least_le
  rcases h.full with hfull | hexponent
  · have hlower :
      format.fractionBits + exponent ≤ Int.log 2 (valueOf significand exponent) := by
      refine (Int.zpow_le_iff_le_log one_lt_two hvalue).mp ?_
      have hle : (2 : ℚ) ^ (format.fractionBits : Int) ≤ significand := by
        exact_mod_cast hfull
      rw [cast_two, zpow_add₀ two_ne_zero, valueOf]
      exact mul_le_mul_of_nonneg_right hle hpow.le
    omega
  · omega

/-- **A number that a format holds is not rounded.** -/
theorem nearest_eq_pattern {num : Nat} (hden : 0 < den)
    (hvalue : (num : ℚ) / den = valueOf significand exponent)
    (h : format.Holds significand exponent) :
    nearest format num den = format.pattern significand exponent := by
  have hden' : (den : ℚ) ≠ 0 := by exact_mod_cast hden.ne'
  by_cases hzero : significand = 0
  · subst hzero
    have hnum : num = 0 := by
      rw [valueOf, cast_zero, zero_mul, div_eq_zero_iff, or_iff_left hden'] at hvalue
      exact_mod_cast hvalue
    have hexponent : exponent = format.leastExponent :=
      h.full.resolve_left (not_le.mpr (by positivity))
    rw [nearest, if_pos hnum, pattern, hexponent, sub_self, Int.toNat_zero, zero_mul]
  · have hpos : 0 < significand := pos_of_ne_zero hzero
    have hvaluePos : (0 : ℚ) < num / den := by
      rw [hvalue, valueOf]
      positivity
    have hnum : 0 < num := by
      rcases Nat.eq_zero_or_pos num with rfl | hnum
      · simp at hvaluePos
      · exact hnum
    have hplace :
      max (logRatio num den - format.fractionBits) format.leastExponent = exponent := by
      rw [logRatio_eq_log hnum hden, hvalue, h.max_log_eq hpos]
    obtain ⟨hscale, hscaled⟩ := scale_value num hden exponent
    have hexact : (scale num den exponent).1 = significand * (scale num den exponent).2 := by
      have hscale' : ((scale num den exponent).2 : ℚ) ≠ 0 := by exact_mod_cast hscale.ne'
      rw [hvalue, valueOf, mul_div_cancel_right₀ _ (by positivity),
        div_eq_iff hscale'] at hscaled
      exact_mod_cast hscaled
    simp only [nearest, if_neg hnum.ne', hplace]
    rw [hexact, halfEven_mul_right _ hscale]
    exact min_eq_left h.pattern_lt.le

/-! ### Signs -/

theorem isNegative_withSign (negative : Bool) (h : bits < format.signBit) :
    isNegative format (withSign format negative bits) = negative := by
  have hpos : 0 < format.signBit := zero_lt_of_lt h
  cases negative with
  | false => simp [isNegative, withSign, div_eq_of_lt h]
  | true =>
    have hdiv : (format.signBit + bits) / format.signBit = 1 := by
      rw [add_div_left _ hpos, div_eq_of_lt h]
    simp [isNegative, withSign, hdiv]

theorem magnitude_withSign (negative : Bool) (bits : Nat) :
    magnitude format (withSign format negative bits) = magnitude format bits := by
  cases negative with
  | false => rfl
  | true =>
    have hsign : format.signBit = 2 ^ format.fractionBits * 2 ^ format.exponentBits := by
      rw [signBit, pow_eq, pow_add, mul_comm]
    have hmod :
      (format.signBit + bits) % 2 ^ format.fractionBits = bits % 2 ^ format.fractionBits := by
      rw [hsign, mul_add_mod]
    have hdiv : (format.signBit + bits) / 2 ^ format.fractionBits % 2 ^ format.exponentBits =
        bits / 2 ^ format.fractionBits % 2 ^ format.exponentBits := by
      rw [hsign, mul_add_div (by positivity), add_mod_left]
    simp only [magnitude, withSign, if_true, pow_eq, hmod, hdiv]

theorem withSign_isNegative_mod (h : bits < 2 * format.signBit) :
    withSign format (isNegative format bits) (bits % format.signBit) = bits := by
  have hpos : 0 < format.signBit := by omega
  have hdiv : bits / format.signBit < 2 := Nat.div_lt_of_lt_mul (by omega)
  have hbits := div_add_mod bits format.signBit
  obtain hzero | hone := le_one_iff_eq_zero_or_eq_one.mp (le_of_lt_succ hdiv)
  · simp only [isNegative, withSign, hzero]
    rw [hzero, mul_zero, zero_add] at hbits
    simpa using hbits
  · simp only [isNegative, withSign, hone]
    rw [hone, mul_one] at hbits
    simpa using hbits

theorem withSign_lt (negative : Bool) (h : bits < format.signBit) :
    withSign format negative bits < 2 * format.signBit := by
  cases negative <;> simp only [withSign] <;> split <;> omega

/-! ### Conversions -/

/-- A number whose significand has room to be shifted into the places of a
format is held by it. -/
theorem exists_holds_of_lt {bound} (hsig : significand < 2 ^ bound)
    (hbound : bound ≤ format.fractionBits + 1)
    (hleast : format.leastExponent + format.fractionBits ≤ exponent)
    (hexponent : (exponent - format.leastExponent).toNat + 2 < 2 ^ format.exponentBits) :
    ∃ significand' exponent', format.Holds significand' exponent' ∧
      valueOf significand' exponent' = valueOf significand exponent := by
  by_cases hzero : significand = 0
  · refine ⟨0, format.leastExponent, ⟨by positivity, le_rfl, .inr rfl, ?_⟩, ?_⟩
    · refine pattern_lt_infinity (by positivity) ?_
      rw [sub_self, Int.toNat_zero]
      omega
    · simp [valueOf, hzero]
  · -- The significand is shifted until its leading one stands in the first place.
    have hlog : significand.log2 ≤ format.fractionBits := by
      have := (log2_lt hzero).mpr hsig
      omega
    set shift := format.fractionBits - significand.log2 with hshift
    have hlt : significand * 2 ^ shift < 2 ^ (format.fractionBits + 1) :=
      calc significand * 2 ^ shift < 2 ^ (significand.log2 + 1) * 2 ^ shift :=
            mul_lt_mul_of_pos_right lt_log2_self (by positivity)
        _ = 2 ^ (format.fractionBits + 1) := by
            rw [← pow_add]
            congr 1
            omega
    refine ⟨significand * 2 ^ shift, exponent - shift,
      ⟨hlt, by omega, .inl ?_, pattern_lt_infinity hlt (by omega)⟩, ?_⟩
    · calc 2 ^ format.fractionBits = 2 ^ significand.log2 * 2 ^ shift := by
            rw [← pow_add]
            congr 1
            omega
        _ ≤ significand * 2 ^ shift := mul_le_mul_right _ (log2_self_le hzero)
    · rw [valueOf, valueOf, zpow_sub₀ two_ne_zero, cast_mul, cast_pow, cast_two, zpow_natCast]
      field_simp

/-- A finite number in another format that holds it. -/
theorem convert_eq_pattern {source target : Format} {significand' exponent'}
    (hbits : magnitude source bits = .finite significand exponent)
    (hvalue : valueOf significand exponent = valueOf significand' exponent')
    (htarget : target.Holds significand' exponent') :
    convert source target bits =
      withSign target (isNegative source bits) (target.pattern significand' exponent') := by
  obtain ⟨hden, hratio⟩ := ratio_value significand exponent
  simp only [convert, hbits]
  rw [nearest_eq_pattern hden (hratio.trans hvalue) htarget]

/-- **A finite number survives the way through a format that holds it.** -/
theorem convert_convert {source target : Format} {significand' : Nat} {exponent' : Int}
    (hlt : bits < 2 * source.signBit)
    (hbits : magnitude source bits = .finite significand exponent)
    (hvalue : valueOf significand exponent = valueOf significand' exponent')
    (htarget : target.Holds significand' exponent') :
    magnitude target (convert source target bits) = .finite significand' exponent' ∧
      convert target source (convert source target bits) = bits := by
  obtain ⟨hsource, hpattern⟩ := holds_of_magnitude hbits
  have hforth := convert_eq_pattern hbits hvalue htarget
  have hmagnitude :
    magnitude target (convert source target bits) = .finite significand' exponent' := by
    rw [hforth, magnitude_withSign, magnitude_pattern htarget]
  have hsign : isNegative target (convert source target bits) = isNegative source bits := by
    rw [hforth, isNegative_withSign _ (htarget.pattern_lt.trans target.infinity_lt_signBit)]
  refine ⟨hmagnitude, ?_⟩
  rw [convert_eq_pattern hmagnitude hvalue.symm hsource, hsign, ← hpattern,
    withSign_isNegative_mod hlt]

/-- Every finite number of 32 bits has a form in 64 bits. -/
theorem exists_double_of_single (h : single.Holds significand exponent) :
    ∃ significand' exponent', double.Holds significand' exponent' ∧
      valueOf significand' exponent' = valueOf significand exponent := by
  have hsingle : single.leastExponent = -149 := by decide
  have hdouble : double.leastExponent = -1074 := by decide
  have hfraction : (double.fractionBits : Int) = 52 := rfl
  have hbits : 2 ^ double.exponentBits = 2048 := by decide
  have hleast := h.least_le
  have hbelow :
    (exponent - single.leastExponent).toNat * 8388608 + significand < 255 * 8388608 :=
    h.pattern_lt
  exact exists_holds_of_lt h.significand_lt (by decide) (by omega) (by omega)

end Xdr.Binary
