import Mathlib.Data.Nat.Digits.Defs
import Xdr.Numeral

/-!
# Literals of a source

A literal that passes the check of a source denotes an integer once its
spelling is canonical, and it is the integer that the literal stands for in
C.  The check reads octal digits as decimal ones, which makes the number no
smaller.

## Main Statements

* `Numeral.readDigits_eq_some` — reading digits gives the number they stand
  for
* `Numeral.spelledPlainly_of_checked` — what passes the check is spelled
  plainly, as the number it stands for
* `Numeral.value?_canonical` — a literal that passes the check has the value
  it stands for
* `Numeral.canonical_canonical` — its canonical spelling is kept as it is
-/

namespace Xdr.Numeral

open Char List Nat

variable {base : Nat} {digits : List Char} {n : Nat} {c : Char} {cs hex : List Char}

/-! ### Digits -/

/-- Reading digits from the left, one at a time. -/
theorem readDigits_cons {acc} :
    readDigits base acc (c :: cs) = some n ↔
    ∃ value, digitValue? c = some value ∧ value < base ∧
      readDigits base (acc * base + value) cs = some n := by
  rw [readDigits]
  cases digitValue? c with
  | none => simp
  | some value => simp

theorem isDigitIn_eq_true :
    isDigitIn base c = true ↔ ∃ value, digitValue? c = some value ∧ value < base := by
  rw [isDigitIn]
  cases digitValue? c <;> simp

theorem notMem_of_digits (h : ∀ c ∈ digits, isDigitIn base c = true)
    (hc : digitValue? c = none) : c ∉ digits := by
  intro hmem
  obtain ⟨value, hvalue, -⟩ := isDigitIn_eq_true.mp (h c hmem)
  rw [hc] at hvalue
  cases hvalue

/-! ### What digits stand for -/

/-- The number of a digit: its place among the digits, in either case. -/
def digitNumber (c : Char) : Nat :=
  ['0', '1', '2', '3', '4', '5', '6', '7', '8', '9', 'a', 'b', 'c', 'd', 'e',
    'f'].idxOf c.toLower

/-- The number that digits stand for in a base, the most significant of them
first. -/
def positional (base : Nat) (digits : List Char) : Nat :=
  ofDigits base (digits.reverse.map digitNumber)

@[simp] theorem positional_nil (base : Nat) : positional base [] = 0 := rfl

/-- The first digit has the highest power of the base. -/
theorem positional_cons (base : Nat) (c : Char) (cs : List Char) :
    positional base (c :: cs) = digitNumber c * base ^ cs.length + positional base cs := by
  rw [positional, reverse_cons, map_append, ofDigits_append]
  simp [positional]
  ring

/-- The value of a digit, by the place of its character. -/
theorem digitValue?_eq_some {value} : digitValue? c = some value ↔
    (48 ≤ c.toNat ∧ c.toNat ≤ 57 ∧ value = c.toNat - 48) ∨
      (97 ≤ c.toNat ∧ c.toNat ≤ 102 ∧ value = c.toNat - 87) ∨
      (65 ≤ c.toNat ∧ c.toNat ≤ 70 ∧ value = c.toNat - 55) := by
  have hle : ∀ a b : Char, a ≤ b ↔ a.toNat ≤ b.toNat := fun a b => Iff.rfl
  simp only [digitValue?, hle, reduceToNat]
  split_ifs <;> simp only [Option.some.injEq, false_iff] <;> omega

theorem digitNumber_of_digitValue? {value} (h : digitValue? c = some value) :
    digitNumber c = value := by
  have hall : ∀ n < 103, ∀ value ∈ digitValue? (ofNat n), digitNumber (ofNat n) = value := by
    decide
  have hcases := digitValue?_eq_some.mp h
  have hvalue := hall c.toNat (by omega)
  rw [ofNat_toNat] at hvalue
  exact hvalue value h

/-- **Reading digits gives the number they stand for.** -/
theorem readDigits_eq_some {acc : Nat} : readDigits base acc digits = some n ↔
    (∀ c ∈ digits, isDigitIn base c = true) ∧
    n = acc * base ^ digits.length + positional base digits := by
  induction digits generalizing acc with
  | nil =>
    rw [readDigits, Option.some.injEq, positional_nil, length_nil, pow_zero, mul_one,
      add_zero, eq_comm]
    exact (and_iff_right fun _ hc => absurd hc not_mem_nil).symm
  | cons c cs ih =>
    rw [readDigits_cons, forall_mem_cons, isDigitIn_eq_true, positional_cons, length_cons]
    constructor
    · rintro ⟨value, hvalue, hlt, hrest⟩
      obtain ⟨hdigits, rfl⟩ := ih.mp hrest
      refine ⟨⟨⟨value, hvalue, hlt⟩, hdigits⟩, ?_⟩
      rw [digitNumber_of_digitValue? hvalue]
      ring
    · rintro ⟨⟨⟨value, hvalue, hlt⟩, hdigits⟩, rfl⟩
      refine ⟨value, hvalue, hlt, ih.mpr ⟨hdigits, ?_⟩⟩
      rw [digitNumber_of_digitValue? hvalue]
      ring

/-- **Digits are read** as the number that they spell positionally. -/
theorem readNat_eq_some_iff : readNat base digits = some n ↔
    digits ≠ [] ∧ (∀ c ∈ digits, isDigitIn base c = true) ∧ n = positional base digits := by
  have hread : readNat base digits = some n ↔
    digits ≠ [] ∧ readDigits base 0 digits = some n := by
    rw [readNat]
    cases digits <;> simp
  rw [hread, readDigits_eq_some, zero_mul, zero_add]

/-- Zeros in front do not matter. -/
theorem positional_dropWhile (base : Nat) (digits : List Char) :
    positional base (digits.dropWhile (· == '0')) = positional base digits := by
  induction digits with
  | nil => rfl
  | cons c cs ih =>
    by_cases hzero : c = '0'
    · subst hzero
      have hnumber : digitNumber '0' = 0 := by decide
      rw [dropWhile_cons_of_pos (by simp), ih, positional_cons, hnumber, zero_mul, zero_add]
    · rw [dropWhile_cons_of_neg (by simpa using hzero)]

theorem splitSign_of_head (hminus : digits.head? ≠ some '-')
    (hplus : digits.head? ≠ some '+') : splitSign digits = (false, digits) := by
  unfold splitSign
  split
  · exact absurd rfl hminus
  · exact absurd rfl hplus
  · rfl

/-- Digits begin with no sign. -/
theorem splitSign_of_digits (h : ∀ c ∈ digits, isDigitIn base c = true) :
    splitSign digits = (false, digits) :=
  splitSign_of_head (fun hhead => notMem_of_digits h (by decide) (mem_of_head? hhead))
    fun hhead => notMem_of_digits h (by decide) (mem_of_head? hhead)

theorem readInt_of_digits (hne : digits ≠ []) (h : ∀ c ∈ digits, isDigitIn base c = true) :
    readInt base digits = some (positional base digits : Int) := by
  simp [readInt, splitSign_of_digits h, readNat_eq_some_iff.mpr ⟨hne, h, rfl⟩]

/-! ### What a literal stands for -/

/-- Several digits below eight, the first of which is zero. -/
structure Octal (digits : List Char) : Prop where
  several : 1 < digits.length
  zero : digits.head? = some '0'
  below : ∀ c ∈ digits, '0' ≤ c ∧ c ≤ '7'

/-- The digits of a base up to ten. -/
theorem isDigitIn_of_le_ten (hbase : base ≤ 10) :
    isDigitIn base c = true ↔ 48 ≤ c.toNat ∧ c.toNat ≤ 47 + base := by
  simp only [isDigitIn_eq_true, digitValue?_eq_some]
  constructor
  · rintro ⟨value, hvalue, hlt⟩
    omega
  · rintro ⟨hlow, hhigh⟩
    exact ⟨c.toNat - 48, .inl ⟨hlow, by omega, rfl⟩, by omega⟩

theorem isDigitIn_eight : isDigitIn 8 c = true ↔ '0' ≤ c ∧ c ≤ '7' :=
  isDigitIn_of_le_ten (by decide)

theorem isOctal_eq_true : isOctal digits = true ↔ Octal digits := by
  simp only [isOctal, Bool.and_eq_true, decide_eq_true_eq, beq_iff_eq, all_eq_true,
    isDigitIn_eight]
  exact ⟨fun ⟨⟨hseveral, hzero⟩, hbelow⟩ => ⟨hseveral, hzero, hbelow⟩,
    fun h => ⟨⟨h.several, h.zero⟩, h.below⟩⟩

instance : DecidablePred Octal :=
  fun _ => decidable_of_iff _ isOctal_eq_true

/-- The number that unsigned digits stand for in C: a hexadecimal one after
the mark, an octal one if there are several digits below eight that begin
with zero, and a decimal one otherwise. -/
def amount : List Char → Nat
  | '0' :: 'x' :: hex => positional 16 hex
  | '0' :: 'X' :: hex => positional 16 hex
  | digits => if Octal digits then positional 8 digits else positional 10 digits

/-- The integer that a literal stands for in C. -/
def meaning : List Char → Int
  | '-' :: digits => -(amount digits : Int)
  | '+' :: digits => amount digits
  | digits => amount digits

theorem amount_of_hexBody? (h : hexBody? digits = some hex) :
    amount digits = positional 16 hex := by
  unfold hexBody? at h
  split at h <;> cases h <;> rfl

/-- Without a mark, a leading zero makes an octal number. -/
theorem amount_of_decimal (h : hexBody? digits = none) :
    amount digits = if Octal digits then positional 8 digits else positional 10 digits := by
  unfold amount
  split
  · cases h
  · cases h
  · rfl

/-- The meaning of a numeral, by its sign and amount. -/
theorem meaning_eq (cs : List Char) :
    meaning cs =
      if (splitSign cs).1 then -(amount (splitSign cs).2 : Int)
        else amount (splitSign cs).2 := by
  unfold meaning
  split
  · rfl
  · rfl
  · simp only [splitSign]
    rfl

/-! ### Canonical spellings -/

/-- The number after the sign of a canonical spelling. -/
def magnitude? (digits : List Char) : Option Int :=
  match digits with
  | '0' :: 'x' :: hex => readInt 16 hex
  | '0' :: 'o' :: octal => readInt 8 octal
  | _ => readInt 10 digits

/-- The sign of a canonical spelling. -/
def sign (negative : Bool) : List Char :=
  if negative then ['-'] else []

/-- The canonical spelling of digits after a sign. -/
def spelling (sign digits : List Char) : List Char :=
  match digits with
  | '0' :: 'X' :: hex => sign ++ ['0', 'x'] ++ hex
  | _ =>
    if isOctal digits then
      match digits.dropWhile (· == '0') with
      | [] => ['0']
      | rest => sign ++ ['0', 'o'] ++ rest
    else sign ++ digits

theorem value?_sign_append (negative : Bool) (hhead : digits.head? ≠ some '-') :
    value? (sign negative ++ digits) =
      (magnitude? digits).bind fun n => within (if negative then -n else n) := by
  have hminus : ∀ rest, digits = '-' :: rest → False := by
    rintro rest rfl
    exact hhead rfl
  cases negative with
  | true => rfl
  | false =>
    simp only [value?, sign, Bool.false_eq_true, if_false, nil_append]
    rfl

theorem canonical_eq_spelling (hhead : (splitSign cs).2.head? ≠ some '-') :
    canonical cs = spelling (sign (splitSign cs).1) (splitSign cs).2 := by
  unfold splitSign at hhead ⊢
  split at hhead
  · rfl
  · next rest =>
    have hminus : ∀ digits, rest = '-' :: digits → False := by
      rintro digits rfl
      exact hhead rfl
    simp only [canonical]
    rfl
  · simp only [canonical]
    rfl

/-- A literal of an unsigned integer in emitted code, and the number it
denotes there: hexadecimal or octal digits behind their mark, or decimal
digits. -/
inductive Unsigned : List Char → Nat → Prop where
  | hex {digits : List Char} (hne : digits ≠ []) (h : ∀ c ∈ digits, isDigitIn 16 c = true) :
      Unsigned ('0' :: 'x' :: digits) (positional 16 digits)
  | octal {digits : List Char} (hne : digits ≠ []) (h : ∀ c ∈ digits, isDigitIn 8 c = true) :
      Unsigned ('0' :: 'o' :: digits) (positional 8 digits)
  | decimal {digits : List Char} (hne : digits ≠ []) (h : ∀ c ∈ digits,
    isDigitIn 10 c = true) : Unsigned digits (positional 10 digits)

/-- The digits of canonical spellings, and the number they denote: decimal
ones are not octal. -/
structure Plain (digits : List Char) (n : Nat) : Prop where
  unsigned : Unsigned digits n
  not_octal : ¬ Octal digits

theorem Unsigned.notMem (h : Unsigned digits n) (hc : digitValue? c = none)
    (hmark : c ∉ ['x', 'o']) : c ∉ digits := by
  have hzero : c ≠ '0' := by
    rintro rfl
    cases hc
  cases h with
  | hex _ hdigits | octal _ hdigits => simp_all [notMem_of_digits hdigits hc]
  | decimal _ hdigits => exact notMem_of_digits hdigits hc

theorem Unsigned.head?_ne (h : Unsigned digits n) (hc : digitValue? c = none)
    (hmark : c ∉ ['x', 'o']) : digits.head? ≠ some c :=
  fun hhead => h.notMem hc hmark (mem_of_head? hhead)

theorem Unsigned.magnitude?_eq (h : Unsigned digits n) :
    magnitude? digits = some (n : Int) := by
  cases h with
  | hex hne hdigits | octal hne hdigits => exact readInt_of_digits hne hdigits
  | decimal hne hdigits =>
    -- A mark is no decimal digit.
    unfold magnitude?
    split
    · exact absurd (hdigits 'x' (by simp)) (by decide)
    · exact absurd (hdigits 'o' (by simp)) (by decide)
    · exact readInt_of_digits hne hdigits

namespace Plain

variable (h : Plain digits n)
include h

/-- Plain digits are spelled as they are. -/
theorem spelling_eq (sign : List Char) : spelling sign digits = sign ++ digits := by
  have hmark : ∀ hex, digits = '0' :: 'X' :: hex → False := by
    rintro hex rfl
    exact h.unsigned.notMem (c := 'X') (by decide) (by decide) (by simp)
  simp only [spelling]
  rw [if_neg (mt isOctal_eq_true.mp h.not_octal)]

theorem splitSign_eq (negative : Bool) :
    splitSign (sign negative ++ digits) = (negative, digits) := by
  cases negative with
  | true => rfl
  | false =>
    exact splitSign_of_head (h.unsigned.head?_ne (by decide) (by decide))
      (h.unsigned.head?_ne (by decide) (by decide))

/-- A canonical spelling is kept as it is. -/
theorem canonical_eq (negative : Bool) :
    canonical (sign negative ++ digits) = sign negative ++ digits := by
  have hhead := h.unsigned.head?_ne (c := '-') (by decide) (by decide)
  rw [canonical_eq_spelling (by rwa [h.splitSign_eq]), h.splitSign_eq]
  exact h.spelling_eq _

end Plain

/-! ### Checked literals -/

/-- The digits that the check of a literal reads. -/
def checked? (digits : List Char) : Option Nat :=
  match hexBody? digits with
  | some hex => readNat 16 hex
  | none => readNat 10 digits

/-- The check reads hexadecimal digits behind a mark, or decimal ones. -/
theorem checked?_eq_some : checked? digits = some n ↔
    (∃ hex, hexBody? digits = some hex ∧ hex ≠ [] ∧ (∀ c ∈ hex, isDigitIn 16 c = true) ∧
      n = positional 16 hex) ∨
    hexBody? digits = none ∧ digits ≠ [] ∧ (∀ c ∈ digits, isDigitIn 10 c = true) ∧
      n = positional 10 digits := by
  unfold checked?
  cases hexBody? digits with
  | none => simp [readNat_eq_some_iff]
  | some hex => simp [readNat_eq_some_iff]

theorem hexBody?_eq_some (h : hexBody? digits = some hex) :
    digits = '0' :: 'x' :: hex ∨ digits = '0' :: 'X' :: hex := by
  unfold hexBody? at h
  split at h <;> cases h
  · exact .inl rfl
  · exact .inr rfl

/-- An integer of 64 bits. -/
def Fits (n : Int) : Prop :=
  least ≤ n ∧ n ≤ greatest

instance : DecidablePred Fits :=
  fun n => inferInstanceAs (Decidable (least ≤ n ∧ n ≤ greatest))

theorem isSome_within {n} : (within n).isSome ↔ Fits n := by
  rw [within, Fits]
  split <;> simp_all

theorem within_eq_some {m n} : within m = some n ↔ m = n ∧ Fits n := by
  rw [within, Fits]
  split
  · next h =>
    rw [Option.some.injEq]
    exact ⟨fun heq => ⟨heq, heq ▸ h⟩, fun heq => heq.1⟩
  · next h => exact ⟨fun hnone => absurd hnone (by simp), fun heq => absurd (heq.1 ▸ heq.2) h⟩

/-- What can be read passes the check if it is an integer of 64 bits, and
overflows otherwise. -/
theorem check_of_checked (h : checked? (splitSign cs).2 = some n) :
    check cs = if Fits (if (splitSign cs).1 then -(n : Int) else n) then none
      else some .overflow := by
  simp only [← isSome_within]
  unfold check
  dsimp only
  unfold checked? at h
  split at h
  · next hex hhex =>
    obtain ⟨c, hex, rfl⟩ := exists_cons_of_ne_nil (readNat_eq_some_iff.mp h).1
    rw [hhex]
    dsimp only
    rw [h]
  · next hhex =>
    rw [hhex]
    dsimp only
    rw [h]

/-- A numeral that passes the check has a number that fits. -/
theorem exists_checked (h : check cs = none) :
    ∃ n, checked? (splitSign cs).2 = some n ∧ Fits (if (splitSign cs).1 then -(n : Int)
      else n) := by
  cases hchecked : checked? (splitSign cs).2 with
  | none =>
    unfold checked? at hchecked
    unfold check at h
    split at hchecked
    · next hex hhex => cases hex <;> simp_all
    · simp_all
  | some n =>
    rw [check_of_checked hchecked] at h
    exact ⟨n, rfl, by_contra fun hnot => by simp [hnot] at h⟩

theorem notMem_of_checked (h : checked? digits = some n) (hc : digitValue? c = none)
    (hmark : c ∉ ['x', 'X']) : c ∉ digits := by
  have hzero : c ≠ '0' := by
    rintro rfl
    cases hc
  rcases checked?_eq_some.mp h with ⟨hex, hhex, _, hdigits, _⟩ | ⟨_, _, hdigits, _⟩
  · have hnone := notMem_of_digits hdigits hc
    rcases hexBody?_eq_some hhex with rfl | rfl <;> simp_all
  · exact notMem_of_digits hdigits hc

theorem head_ne_of_checked (h : checked? digits = some n) : digits.head? ≠ some '-' :=
  fun hhead => notMem_of_checked h (by decide) (by decide) (mem_of_head? hhead)

/-- What the check reads is no less than what the digits stand for. -/
theorem amount_le_of_checked (h : checked? digits = some n) : amount digits ≤ n := by
  rcases checked?_eq_some.mp h with ⟨hex, hhex, _, _, rfl⟩ | ⟨hhex, _, _, rfl⟩
  · rw [amount_of_hexBody? hhex]
  · rw [amount_of_decimal hhex]
    split
    · exact ofDigits_monotone _ (by decide)
    · exact le_refl _

/-- Digits behind a sign are spelled plainly, as the number they stand for.
Only the sign of a zero may be lost. -/
def SpelledPlainly (negative : Bool) (digits : List Char) : Prop :=
  ∃ negative' body, spelling (sign negative) digits = sign negative' ++ body ∧
    Plain body (amount digits) ∧ (amount digits = 0 ∨ negative' = negative)

/-- Whichever way the mark of hexadecimal digits is written, it becomes
`0x`. -/
theorem spelledPlainly_hex (hhex : hexBody? digits = some hex) (hne : hex ≠ [])
    (hdigits : ∀ c ∈ hex, isDigitIn 16 c = true) (negative : Bool) :
    SpelledPlainly negative digits := by
  have hplain : Plain ('0' :: 'x' :: hex) (positional 16 hex) :=
    ⟨.hex hne hdigits, fun hoctal => absurd (hoctal.below 'x' (by simp)) (by decide)⟩
  have hspelling : spelling (sign negative) digits = sign negative ++ '0' :: 'x' :: hex := by
    rcases hexBody?_eq_some hhex with rfl | rfl
    · exact hplain.spelling_eq _
    · exact append_assoc ..
  exact ⟨negative, _, hspelling, amount_of_hexBody? hhex ▸ hplain, .inr rfl⟩

/-- Octal digits lose their zeros and take a mark.  If nothing is left of
them, they become `0`. -/
theorem spelledPlainly_octal (hhex : hexBody? digits = none) (hoctal : Octal digits)
    (negative : Bool) : SpelledPlainly negative digits := by
  have hmark : ∀ hex, digits = '0' :: 'X' :: hex → False := by
    rintro hex rfl
    cases hhex
  simp only [SpelledPlainly, spelling]
  rw [amount_of_decimal hhex, if_pos hoctal, if_pos (isOctal_eq_true.mpr hoctal),
    ← positional_dropWhile]
  split
  · next hzeros =>
    rw [hzeros]
    have hunsigned : Unsigned ['0'] 0 := .decimal (by simp) (all_eq_true.mp (by decide))
    exact ⟨false, ['0'], rfl, ⟨hunsigned, by decide⟩, .inl rfl⟩
  · next hrest =>
    have hsmall : ∀ c ∈ digits.dropWhile (· == '0'), isDigitIn 8 c = true := fun c hc =>
      isDigitIn_eight.mpr (hoctal.below c ((dropWhile_suffix _).mem hc))
    refine ⟨negative, _, append_assoc .., ⟨.octal hrest hsmall, fun hoctal => ?_⟩, .inr rfl⟩
    exact absurd (hoctal.below 'o' (by simp)) (by decide)

/-- **What the check reads is spelled plainly.** -/
theorem spelledPlainly_of_checked (h : checked? digits = some n) (negative : Bool) :
    SpelledPlainly negative digits := by
  rcases checked?_eq_some.mp h with ⟨hex, hhex, hne, hdigits, _⟩ | ⟨hhex, hne, hdigits, _⟩
  · exact spelledPlainly_hex hhex hne hdigits negative
  · by_cases hoctal : Octal digits
    · exact spelledPlainly_octal hhex hoctal negative
    · have hplain : Plain digits (amount digits) := by
        rw [amount_of_decimal hhex, if_neg hoctal]
        exact ⟨.decimal hne hdigits, hoctal⟩
      exact ⟨negative, digits, hplain.spelling_eq _, hplain, .inr rfl⟩

/-- A smaller number is within the limits as well. -/
theorem Fits.of_le {negative : Bool} {m : Nat} (h : Fits (if negative then -(n : Int) else n))
    (hle : m ≤ n) : Fits (if negative then -(m : Int) else m) := by
  unfold Fits least greatest at *
  cases negative <;> simp at * <;> omega

/-- A literal that passes the check is spelled plainly, as what it stands
for. -/
theorem exists_plain (h : check cs = none) :
    ∃ negative body n, canonical cs = sign negative ++ body ∧ Plain body n ∧
      meaning cs = (if negative then -(n : Int) else n) ∧ Fits (meaning cs) := by
  obtain ⟨n, hn, hfits⟩ := exists_checked h
  obtain ⟨negative, body, hspelling, hplain, hsign⟩ :=
    spelledPlainly_of_checked hn (splitSign cs).1
  have hcanonical := (canonical_eq_spelling (head_ne_of_checked hn)).trans hspelling
  refine ⟨negative, body, _, hcanonical, hplain, ?_, ?_⟩
  · rw [meaning_eq]
    rcases hsign with hzero | rfl
    · simp [hzero]
    · rfl
  · rw [meaning_eq]
    exact hfits.of_le (amount_le_of_checked hn)

/-- **A literal that passes the check has the value it stands for.** -/
theorem value?_canonical (h : check cs = none) :
    value? (canonical cs) = some (meaning cs) := by
  obtain ⟨negative, body, n, hcanonical, hplain, hmeaning, hfits⟩ := exists_plain h
  rw [hcanonical, value?_sign_append _ (hplain.unsigned.head?_ne (by decide) (by decide)),
    hplain.unsigned.magnitude?_eq]
  exact within_eq_some.mpr ⟨hmeaning.symm, hfits⟩

/-- **The canonical spelling is kept as it is.** -/
theorem canonical_canonical (h : check cs = none) :
    canonical (canonical cs) = canonical cs := by
  obtain ⟨negative, _, _, hcanonical, hplain, _⟩ := exists_plain h
  rw [hcanonical, hplain.canonical_eq negative]

/-- The canonical spelling of a checked numeral has a value. -/
theorem isSome_value?_canonical (h : check cs = none) : (value? (canonical cs)).isSome := by
  rw [value?_canonical h]
  rfl

end Xdr.Numeral
