import Xdr.Proofs.Token.Constant

/-!
# A literal alone

A text that is a literal and nothing else is read as one lexeme or reported
as too large.  The check reads all digits without a mark as decimal ones.
So octal digits are reported as too large if the same digits are, read as
decimal ones, although what they stand for may be an integer of 64 bits.

## Main Statements

* `Numeral.Literal.check_eq` — which literals pass the check
* `Numeral.Literal.results_eq` — what a literal alone is read as
* `Lexer.results_of_fits` — which literals of 64 bits are read, and which
  are not
-/

namespace Xdr

namespace Numeral

/-- The texts of literals: after an optional sign, hexadecimal digits behind
their mark, or decimal digits. -/
inductive Literal : List Char → Prop where
  | hex {sign digits mark} (hsign : sign ∈ [[], ['-'], ['+']])
      (hmark : mark = 'x' ∨ mark = 'X') (hne : digits ≠ [])
      (h : ∀ c ∈ digits, ('0' ≤ c ∧ c ≤ '9') ∨ ('a' ≤ c ∧ c ≤ 'f') ∨ ('A' ≤ c ∧ c ≤ 'F')) :
      Literal (sign ++ '0' :: mark :: digits)
  | decimal {sign digits} (hsign : sign ∈ [[], ['-'], ['+']]) (hne : digits ≠ [])
      (h : ∀ c ∈ digits, '0' ≤ c ∧ c ≤ '9') : Literal (sign ++ digits)

/-- What a literal would stand for if its digits were decimal. -/
def decimalMeaning (cs : List Char) : Int :=
  if (splitSign cs).1 then -(positional 10 (splitSign cs).2 : Int)
    else positional 10 (splitSign cs).2

/-! ### The check -/

theorem isDigitIn_ten_iff {c} : isDigitIn 10 c = true ↔ '0' ≤ c ∧ c ≤ '9' :=
  isDigitIn_of_le_ten (Nat.le_refl _)

theorem isDigitIn_sixteen_iff {c} : isDigitIn 16 c = true ↔
    ('0' ≤ c ∧ c ≤ '9') ∨ ('a' ≤ c ∧ c ≤ 'f') ∨ ('A' ≤ c ∧ c ≤ 'F') := by
  have hle : ∀ a b : Char, a ≤ b ↔ a.toNat ≤ b.toNat := fun a b => Iff.rfl
  simp only [isDigitIn_eq_true, digitValue?_eq_some, hle, Char.reduceToNat]
  constructor
  · rintro ⟨value, hvalue, -⟩
    omega
  · rintro (h | h | h)
    · exact ⟨c.toNat - 48, .inl ⟨h.1, h.2, rfl⟩, by omega⟩
    · exact ⟨c.toNat - 87, .inr (.inl ⟨h.1, h.2, rfl⟩), by omega⟩
    · exact ⟨c.toNat - 55, .inr (.inr ⟨h.1, h.2, rfl⟩), by omega⟩

/-- A sign ends at the first digit. -/
theorem splitSign_append {sign} (hsign : sign ∈ [[], ['-'], ['+']]) {first : Char}
    (hfirst : first.isDigit = true) (more : List Char) :
    (splitSign (sign ++ first :: more)).2 = first :: more := by
  rcases sign_cases hsign with rfl | rfl | rfl
  · have hne : ∀ c : Char, c.isDigit = false → (first :: more).head? ≠ some c := by
      rintro c hc heq
      cases heq
      cases hc.symm.trans hfirst
    rw [List.nil_append, splitSign_of_head (hne '-' (by decide)) (hne '+' (by decide))]
  · rfl
  · rfl

namespace Literal

variable {cs : List Char}

/-- A literal is a numeral. -/
theorem number (h : Literal cs) : Number cs := by
  cases h with
  | hex hsign hmark _ hdigits =>
    exact number_hex hsign hmark fun c hc => isDigitIn_sixteen_iff.mpr (hdigits c hc)
  | decimal hsign hne hdigits =>
    obtain ⟨first, more, rfl⟩ := List.exists_cons_of_ne_nil hne
    rw [List.forall_mem_cons] at hdigits
    exact number_decimal hsign
      ((isDigitIn_ten first).symm.trans (isDigitIn_ten_iff.mpr hdigits.1))
      fun c hc => isDigitIn_ten_iff.mpr (hdigits.2 c hc)

/-- The check reads what the digits stand for, but octal ones as decimal. -/
theorem checked_eq (h : Literal cs) : checked? (splitSign cs).2 =
    some (if Octal (splitSign cs).2 then positional 10 (splitSign cs).2
      else amount (splitSign cs).2) := by
  cases h with
  | @hex sign digits mark hsign hmark hne hdigits =>
    have hread : readNat 16 digits = some (positional 16 digits) :=
      readNat_eq_some_iff.mpr ⟨hne, fun c hc => isDigitIn_sixteen_iff.mpr (hdigits c hc), rfl⟩
    have hbody : hexBody? ('0' :: mark :: digits) = some digits := by
      rcases hmark with rfl | rfl <;> rfl
    have hoctal : ¬ Octal ('0' :: mark :: digits) := by
      intro hoctal
      have hbelow := hoctal.below mark (by simp)
      rcases hmark with rfl | rfl <;> exact absurd hbelow (by decide)
    rw [splitSign_append hsign rfl, checked?, hbody, if_neg hoctal, amount_of_hexBody? hbody]
    exact hread
  | @decimal sign digits hsign hne hdigits =>
    have hread : readNat 10 digits = some (positional 10 digits) :=
      readNat_eq_some_iff.mpr ⟨hne, fun c hc => isDigitIn_ten_iff.mpr (hdigits c hc), rfl⟩
    obtain ⟨first, more, rfl⟩ := List.exists_cons_of_ne_nil hne
    rw [List.forall_mem_cons] at hdigits
    have hfirst : first.isDigit = true :=
      (isDigitIn_ten first).symm.trans (isDigitIn_ten_iff.mpr hdigits.1)
    have hbody : hexBody? (first :: more) = none :=
      hexBody?_eq_none fun c hc => isDigitIn_ten_iff.mpr (hdigits.2 c hc)
    rw [splitSign_append hsign hfirst, checked?, hbody, amount_of_decimal hbody]
    refine hread.trans (congrArg some ?_)
    split <;> rfl

/-- **Which literals pass the check**: those that stand for an integer of 64
bits, where octal digits count as decimal ones. -/
theorem check_eq (h : Literal cs) : check cs =
    if Fits (if Octal (splitSign cs).2 then decimalMeaning cs else meaning cs) then none
    else some .overflow := by
  rw [check_of_checked h.checked_eq, decimalMeaning, meaning_eq]
  by_cases hoctal : Octal (splitSign cs).2
  · simp only [if_pos hoctal]
  · simp only [if_neg hoctal]

/-- **A literal alone** is one lexeme, or is reported at its beginning. -/
theorem results_eq {text : String} (h : Literal text.toList) (name : String) :
    (Lexer.ofSource (Source.ofText name text)).results =
      if check text.toList = none then
        [.ok ⟨⟨.first, Position.first.past text.toList⟩, .literal text⟩]
      else [.error ⟨.single .first, .overflow text⟩] := by
  have hnewline : ∀ next ∈ ['\n'].head?, continues text.toList next = false := by
    rintro next ⟨⟩
    simp [continues, isDigitIn, digitValue?]
  split
  · next hcheck =>
    have hspells : Spells text.toList (.literal text) := by
      have hliteral := Spells.literal h.number hcheck
      rwa [String.ofList_toList] at hliteral
    have hproper : (Segment.lexeme text.toList (.literal text)).Proper ['\n'] :=
      ⟨hspells, hnewline⟩
    exact Source.results_of_segment hproper rfl h.number.visible name
  · next hcheck =>
    have hoverflow : check text.toList = some .overflow := by
      rw [h.check_eq] at hcheck ⊢
      exact if_neg fun hfits => hcheck (if_pos hfits)
    have hfaulty : Faulty ['\n'] text.toList (.overflow text) := by
      have hfault := Faulty.overflow h.number hoverflow hnewline
      rwa [String.ofList_toList] at hfault
    have hproper : (Segment.error text.toList (.overflow text)).Proper ['\n'] := hfaulty
    exact Source.results_of_segment hproper rfl h.number.visible name

end Literal

end Numeral

/-- **Which literals of 64 bits are read.**  A literal that stands for an
integer of 64 bits, alone in a source, is read as one lexeme without an
error, unless it is octal and its digits overflow as decimal ones: then it
is reported as an overflow, and nothing else is. -/
theorem Lexer.results_of_fits (name : String) {text : String}
    (hliteral : Numeral.Literal text.toList)
    (hfits : Numeral.Fits (Numeral.meaning text.toList)) :
    (Lexer.ofSource (Source.ofText name text)).results =
      if Numeral.Octal (Numeral.splitSign text.toList).2 ∧
        ¬ Numeral.Fits (Numeral.decimalMeaning text.toList)
      then [.error ⟨.single .first, .overflow text⟩]
      else [.ok ⟨⟨.first, Position.first.past text.toList⟩, .literal text⟩] := by
  rw [hliteral.results_eq name, hliteral.check_eq]
  by_cases hoctal : Numeral.Octal (Numeral.splitSign text.toList).2
  · by_cases hdecimal : Numeral.Fits (Numeral.decimalMeaning text.toList) <;>
      simp [hoctal, hdecimal]
  · simp [hoctal, hfits]

/-- The octal spelling of the greatest integer of 64 bits: a zero and
twenty-one sevens. -/
def Numeral.greatestOctal : String :=
  "0777777777777777777777"

/-- The greatest integer of 64 bits overflows in its octal spelling. -/
theorem Lexer.results_of_greatestOctal :
    Numeral.Literal Numeral.greatestOctal.toList ∧
      Numeral.meaning Numeral.greatestOctal.toList = Numeral.greatest ∧
      (Lexer.ofSource (Source.ofText "test.x" Numeral.greatestOctal)).results =
        [.error ⟨.single .first, .overflow Numeral.greatestOctal⟩] := by
  have hdigits : (Numeral.greatestOctal.toList.all fun c =>
    decide ('0' ≤ c ∧ c ≤ '9')) = true := by decide
  have hliteral : Numeral.Literal Numeral.greatestOctal.toList :=
    .decimal List.mem_cons_self (by decide) fun c hc =>
      of_decide_eq_true (List.all_eq_true.mp hdigits c hc)
  have hmeaning : Numeral.meaning Numeral.greatestOctal.toList = Numeral.greatest := by decide
  have hresults := results_of_fits "test.x" hliteral (hmeaning ▸ by decide)
  rw [if_pos (by decide)] at hresults
  exact ⟨hliteral, hmeaning, hresults⟩

end Xdr
