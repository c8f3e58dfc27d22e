import Xdr.Proofs.Numeral

/-!
# The integers that literals stand for

Which texts denote an integer in a bundle, and which integer.  Beside
canonical spellings these are some in which a second sign stands in front of
the digits.

## Main Statements

* `Numeral.value?_eq_some` — the value of a text is the integer of 64 bits
  that it stands for
-/

namespace Xdr.Numeral

open Option

variable {base : Nat} {cs digits : List Char} {n : Int}

/-- Digits of a base behind an optional sign, and the integer they stand
for. -/
inductive Signed (base : Nat) : List Char → Int → Prop where
  | plain {digits : List Char} (hne : digits ≠ []) (h : ∀ c ∈ digits,
    isDigitIn base c = true) : Signed base digits (positional base digits)
  | plus {digits : List Char} (hne : digits ≠ []) (h : ∀ c ∈ digits,
    isDigitIn base c = true) : Signed base ('+' :: digits) (positional base digits)
  | minus {digits : List Char} (hne : digits ≠ []) (h : ∀ c ∈ digits,
    isDigitIn base c = true) : Signed base ('-' :: digits) (-(positional base digits : Int))

/-- Hexadecimal or octal digits behind their mark, or decimal digits, and
the integer they stand for. -/
inductive Magnitude : List Char → Int → Prop where
  | hex {digits : List Char} {n : Int} (h : Signed 16 digits n) :
    Magnitude ('0' :: 'x' :: digits) n
  | octal {digits : List Char} {n : Int} (h : Signed 8 digits n) :
    Magnitude ('0' :: 'o' :: digits) n
  | decimal {digits : List Char} {n : Int} (h : Signed 10 digits n) : Magnitude digits n

/-- A literal of a bundle, and the integer it stands for. -/
inductive StandsFor : List Char → Int → Prop where
  | plain {digits : List Char} {n : Int} (h : Magnitude digits n) : StandsFor digits n
  | negated {digits : List Char} {n : Int} (h : Magnitude digits n) :
    StandsFor ('-' :: digits) (-n)

theorem readInt_eq (base : Nat) (cs : List Char) :
    readInt base cs =
      (readNat base (splitSign cs).2).map fun m : Nat =>
        if (splitSign cs).1 then -(m : Int) else m := by
  unfold readInt
  obtain ⟨negative, digits⟩ := splitSign cs
  dsimp only
  cases readNat base digits <;> rfl

/-- A sign is split off, or there is none. -/
theorem splitSign_cases (cs : List Char) :
    (cs = '-' :: (splitSign cs).2 ∧ (splitSign cs).1 = true) ∨
      (cs = '+' :: (splitSign cs).2 ∧ (splitSign cs).1 = false) ∨
      (cs = (splitSign cs).2 ∧ (splitSign cs).1 = false) := by
  unfold splitSign
  split
  · exact .inl ⟨rfl, rfl⟩
  · exact .inr (.inl ⟨rfl, rfl⟩)
  · exact .inr (.inr ⟨rfl, rfl⟩)

theorem readInt_eq_some : readInt base cs = some n ↔ Signed base cs n := by
  rw [readInt_eq, map_eq_some_iff]
  constructor
  · rintro ⟨m, hm, rfl⟩
    obtain ⟨hne, hdigits, rfl⟩ := readNat_eq_some_iff.mp hm
    rcases splitSign_cases cs with ⟨hcs, hsign⟩ | ⟨hcs, hsign⟩ | ⟨hcs, hsign⟩
    · rw [hsign, hcs]
      exact .minus hne hdigits
    · rw [hsign, hcs]
      exact .plus hne hdigits
    · rw [← hcs] at hne hdigits ⊢
      rw [hsign]
      exact .plain hne hdigits
  · intro h
    cases h with
    | plain hne hdigits =>
      rw [splitSign_of_digits hdigits]
      exact ⟨_, readNat_eq_some_iff.mpr ⟨hne, hdigits, rfl⟩, rfl⟩
    | plus hne hdigits => exact ⟨_, readNat_eq_some_iff.mpr ⟨hne, hdigits, rfl⟩, rfl⟩
    | minus hne hdigits => exact ⟨_, readNat_eq_some_iff.mpr ⟨hne, hdigits, rfl⟩, rfl⟩

/-- Behind a zero there is no mark but a digit. -/
theorem Signed.mark_isDigit {mark rest} (h : Signed base ('0' :: mark :: rest) n) :
    isDigitIn base mark = true := by
  cases h with
  | plain _ hdigits => exact hdigits mark (by simp)

theorem magnitude?_eq_some : magnitude? digits = some n ↔ Magnitude digits n := by
  constructor
  · unfold magnitude?
    split
    · exact fun h => .hex (readInt_eq_some.mp h)
    · exact fun h => .octal (readInt_eq_some.mp h)
    · exact fun h => .decimal (readInt_eq_some.mp h)
  · intro h
    cases h with
    | hex h => exact readInt_eq_some.mpr h
    | octal h => exact readInt_eq_some.mpr h
    | decimal h =>
      unfold magnitude?
      split
      · exact absurd h.mark_isDigit (by decide)
      · exact absurd h.mark_isDigit (by decide)
      · exact readInt_eq_some.mpr h

/-- **The value of a literal** is the integer it stands for, if that has 64
bits. -/
theorem value?_eq_some : value? cs = some n ↔ StandsFor cs n ∧ Fits n := by
  by_cases hminus : ∃ digits, cs = '-' :: digits
  · obtain ⟨digits, rfl⟩ := hminus
    have hvalue : value? ('-' :: digits) = (magnitude? digits).bind fun m =>
      within (-m) := rfl
    simp only [hvalue, bind_eq_some_iff, magnitude?_eq_some, within_eq_some]
    constructor
    · rintro ⟨m, hm, rfl, hfits⟩
      exact ⟨.negated hm, hfits⟩
    · rintro ⟨hstands, hfits⟩
      cases hstands with
      | negated h => exact ⟨_, h, rfl, hfits⟩
      | plain h =>
        -- Without a mark the minus may be taken for the sign of the digits.
        cases h with
        | decimal h =>
          cases h with
          | plain _ hdigits => exact absurd (hdigits '-' List.mem_cons_self) (by decide)
          | minus hne hdigits => exact ⟨_, .decimal (.plain hne hdigits), rfl, hfits⟩
  · have hhead : cs.head? ≠ some '-' := fun h => hminus (List.head?_eq_some_iff.mp h)
    have hvalue : value? cs = (magnitude? cs).bind fun m => within m :=
      value?_sign_append false hhead
    simp only [hvalue, bind_eq_some_iff, magnitude?_eq_some, within_eq_some]
    constructor
    · rintro ⟨m, hm, rfl, hfits⟩
      exact ⟨.plain hm, hfits⟩
    · rintro ⟨hstands, hfits⟩
      cases hstands with
      | plain h => exact ⟨_, h, rfl, hfits⟩
      | negated h => exact absurd ⟨_, rfl⟩ hminus

end Xdr.Numeral
