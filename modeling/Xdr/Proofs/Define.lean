import Xdr.Proofs.Bundle.Defines
import Xdr.Proofs.Numeral.Value
import Xdr.Proofs.Token.Concatenation
import Xdr.Proofs.Token.Overflow

/-!
# Two rules for integers

A definition looks at the whole of its value to see whether it is an
integer.  The lexer comes to a literal one character after the other, and
checks it where it ends.  Both take the same texts for integers.

## Main Statements

* `Numeral.isNumeral_iff_literal` — what a definition takes for an integer
* `Number.literal` — what the lexer takes for one
* `Define.int_iff_literal_alone` — both agree
-/

namespace Xdr

open Bool List Source

variable {cs : List Char} {c : Char}

/-! ### Whole texts -/

namespace Numeral

theorem literal_of_isNumeral (h : isNumeral cs = true) : Literal cs := by
  obtain ⟨sign, hsign, hcs⟩ : ∃ sign,
    sign ∈ [[], ['-'], ['+']] ∧ cs = sign ++ (splitSign cs).2 := by
    rcases splitSign_cases cs with ⟨hcs, -⟩ | ⟨hcs, -⟩ | ⟨hcs, -⟩
    · exact ⟨['-'], by simp, hcs⟩
    · exact ⟨['+'], by simp, hcs⟩
    · exact ⟨[], by simp, hcs⟩
  rw [isNumeral] at h
  generalize (splitSign cs).2 = digits at h hcs
  subst hcs
  cases hhex : hexBody? digits with
  | some hex =>
    simp only [hhex, and_eq_true, not_eq_true', isEmpty_eq_false_iff, all_eq_true] at h
    have hdigits := fun c hc => isDigitIn_sixteen_iff.mp (h.2 c hc)
    rcases hexBody?_eq_some hhex with rfl | rfl
    · exact .hex hsign (.inl rfl) h.1 hdigits
    · exact .hex hsign (.inr rfl) h.1 hdigits
  | none =>
    simp only [hhex, and_eq_true, not_eq_true', isEmpty_eq_false_iff, all_eq_true] at h
    exact .decimal hsign h.1 fun c hc => isDigitIn_ten_iff.mp (h.2 c hc)

/-- **What a definition takes for an integer** is a literal. -/
theorem isNumeral_iff_literal : isNumeral cs = true ↔ Literal cs :=
  ⟨literal_of_isNumeral, fun h => isNumeral_of_checked h.checked_eq⟩

/-! ### One character after the other -/

/-- A mark of hexadecimal digits, with none of them after it. -/
inductive BareMark : List Char → Prop where
  | mk {sign mark} (hsign : sign ∈ [[], ['-'], ['+']]) (hmark : mark = 'x' ∨ mark = 'X') :
      BareMark (sign ++ ['0', mark])

/-- What goes on with a literal makes it a longer one, or is the mark after
a single zero. -/
theorem Literal.concat (h : Literal cs) (hc : continues cs c = true) :
    Literal (cs ++ [c]) ∨ BareMark (cs ++ [c]) := by
  cases h with
  | @hex sign digits mark hsign hmark hne hdigits =>
    rw [continues_hex hsign hmark] at hc
    have hmore : ∀ d ∈ digits ++ [c], _ := forall_mem_append.mpr
      ⟨hdigits, forall_mem_singleton.mpr (isDigitIn_sixteen_iff.mp hc)⟩
    have hhex := Literal.hex hsign hmark (append_ne_nil_of_left_ne_nil hne _) hmore
    exact .inl (by simpa using hhex)
  | @decimal sign digits hsign hne hdigits =>
    obtain ⟨first, more, rfl⟩ := exists_cons_of_ne_nil hne
    obtain ⟨hfirst, hmore⟩ := forall_mem_cons.mp hdigits
    rw [continues_decimal hsign
      ((isDigitIn_ten first).symm.trans (isDigitIn_ten_iff.mpr hfirst))
      fun d hd => isDigitIn_ten_iff.mpr (hmore d hd)] at hc
    simp only [or_eq_true, and_eq_true, beq_iff_eq] at hc
    rw [append_assoc]
    rcases hc with hdigit | ⟨hzero, hmark⟩
    · exact .inl (.decimal hsign (append_ne_nil_of_left_ne_nil hne _) (forall_mem_append.mpr
        ⟨hdigits, forall_mem_singleton.mpr (isDigitIn_ten_iff.mp hdigit)⟩))
    · rw [hzero]
      exact .inr (.mk hsign hmark)

/-- A digit after the mark makes a literal. -/
theorem BareMark.concat (h : BareMark cs) (hc : continues cs c = true) :
    Literal (cs ++ [c]) := by
  obtain ⟨hsign, hmark⟩ := h
  rw [continues_hex hsign hmark] at hc
  rw [append_assoc]
  exact .hex hsign hmark (cons_ne_nil _ _)
    (forall_mem_singleton.mpr (isDigitIn_sixteen_iff.mp hc))

theorem BareMark.check_eq (h : BareMark cs) : check cs = some .malformed := by
  obtain ⟨hsign, hmark⟩ := h
  rcases sign_cases hsign with rfl | rfl | rfl <;> rcases hmark with rfl | rfl <;> rfl

end Numeral

open Numeral

/-- A numeral is a literal, or ends in the mark. -/
theorem Number.literal_or_bareMark (h : Number cs) : Literal cs ∨ BareMark cs := by
  obtain ⟨sign, first, more, rfl, hsign, hfirst, hgrows⟩ := h.exists_digit
  clear h
  -- From the first digit on, each character goes on with what was read before it.
  induction more using reverseRecOn with
  | nil =>
    have hdigit := isDigitIn_ten_iff.mp ((isDigitIn_ten first).trans hfirst)
    exact .inl (.decimal hsign (cons_ne_nil _ _) (forall_mem_singleton.mpr hdigit))
  | append_singleton more c ih =>
    have hc := hgrows (first :: more) c [] rfl
    have hbefore := ih fun front d back heq => hgrows front d (back ++ [c]) (by
      rw [← cons_append, heq, append_assoc]
      rfl)
    rw [← cons_append, ← append_assoc]
    rcases hbefore with hliteral | hbare
    · exact hliteral.concat hc
    · exact .inl (hbare.concat hc)

/-- **What the lexer takes for an integer** is a literal, be it too large. -/
theorem Number.literal (h : Number cs) (hcheck : check cs ≠ some .malformed) : Literal cs :=
  h.literal_or_bareMark.resolve_right fun hbare => hcheck hbare.check_eq

/-! ### Replies -/

/-- The literal that a reply shows: the token, or the one that is reported
as too large. -/
def Lexer.Reply.literal? : Reply → Option String
  | .ok ⟨_, .literal text⟩ => some text
  | .error ⟨_, .overflow text⟩ => some text
  | _ => none

/-- What a segment shows as a literal is one. -/
theorem Segment.Proper.literal {segment : Segment} {after symbols here reply text}
    (h : segment.Proper after) (hreply : segment.reply? symbols here = some reply)
    (htext : reply.literal? = some text) : Literal text.toList := by
  cases segment with
  | blank | comment => cases hreply
  | lexeme spelling found =>
    cases hreply
    cases h.1 with
    | keyword | mark => cases htext
    | word =>
      rw [Symbols.classify] at htext
      split at htext <;> cases htext
    | literal hnumber hcheck =>
      cases htext
      rw [String.toList_ofList]
      exact hnumber.literal (by simp [hcheck])
  | error spelling fault =>
    cases hreply
    cases h with
    | stray | slash | openComment | badLiteral => cases htext
    | overflow hnumber hcheck =>
      cases htext
      rw [String.toList_ofList]
      exact hnumber.literal (by simp [hcheck])

/-- Every literal that is shown in a source is one. -/
theorem Scanner.literal_of_mem_drain {source text shown symbols reply}
    (hmem : reply ∈ (ofSource (.ofText source text) symbols).drain.1)
    (hshown : reply.literal? = some shown) : Literal shown.toList := by
  obtain ⟨segments, hchars, hproper⟩ :=
    Segment.exists_allProper (endsLine_characters (ofText source text))
  have hresults : (Lexer.ofSource (.ofText source text)).results = _ :=
    results_of_segments (readable_ofText source text) hchars hproper
  rw [drain_eq, hresults, hproper.map_results] at hmem
  obtain ⟨segment, after, place, hsegment, -, hreply⟩ := hproper.exists_of_mem hmem
  exact hsegment.literal hreply hshown

/-- **Definitions and the lexer agree on integers.**  The value of a
definition, with no blanks around it, is kept as it is spelled.  It is an
integer exactly if it is the text of a literal, and exactly if the lexer, on
the value alone, gives one reply, and this shows the whole value as a
literal or as one that is too large.  A token then reaches from the
beginning of the value to its end, and a report stands at the beginning. -/
theorem Define.int_iff_literal_alone {name text : String}
    (hname : Word (Text.trim name.toList))
    (htext : Text.trim text.toList = text.toList) (source : String) (symbols : Symbols) :
    ∃ value,
      parse (name ++ "=" ++ text) = .ok ⟨String.ofList (Text.trim name.toList), value⟩ ∧
      value.spelling = text ∧ (value = .int text ↔ Literal text.toList) ∧
      (value = .int text ↔
        ∃ reply, (Scanner.ofSource (.ofText source text) symbols).drain.1 = [reply] ∧
        reply.literal? = some text) ∧
      (value = .int text →
        (Scanner.ofSource (.ofText source text) symbols).drain.1 =
            [.ok ⟨⟨.first, Position.first.past text.toList⟩, .literal text⟩] ∨
          (Scanner.ofSource (.ofText source text) symbols).drain.1 =
            [.error ⟨.single .first, .overflow text⟩]) := by
  refine ⟨_, parse_assign hname text, ?_⟩
  rw [htext, DefineValue.ofSpelling, String.ofList_toList]
  by_cases hliteral : Literal text.toList
  · rw [if_pos (isNumeral_iff_literal.mpr hliteral), Scanner.drain_eq,
      hliteral.results_eq source]
    split
    · exact ⟨rfl, iff_of_true rfl hliteral, iff_of_true rfl ⟨_, rfl, rfl⟩, fun _ => .inl rfl⟩
    · exact ⟨rfl, iff_of_true rfl hliteral, iff_of_true rfl ⟨_, rfl, rfl⟩, fun _ => .inr rfl⟩
  · rw [if_neg (mt isNumeral_iff_literal.mp hliteral)]
    have hother : DefineValue.text text ≠ .int text := DefineValue.noConfusion
    refine ⟨rfl, iff_of_false hother hliteral, iff_of_false hother ?_,
      fun h => absurd h hother⟩
    rintro ⟨reply, hdrain, hshown⟩
    have hmem : reply ∈ (Scanner.ofSource (.ofText source text) symbols).drain.1 := by
      simp [hdrain]
    exact hliteral (Scanner.literal_of_mem_drain hmem hshown)

/-- A value just beyond 64 bits is an integer for a definition, and the
lexer reports it as a whole. -/
theorem Define.int_iff_literal_alone_beyond :
    Word (Text.trim " SIZE ".toList) ∧
    Text.trim "0X8000000000000000".toList = "0X8000000000000000".toList ∧
      (Scanner.ofSource (.ofText "size.x" "0X8000000000000000") .initial).drain.1 =
        [.error ⟨.single .first, .overflow "0X8000000000000000"⟩] ∧
      parse (" SIZE " ++ "=" ++ "0X8000000000000000") =
        .ok ⟨"SIZE", .int "0X8000000000000000"⟩ := by
  have hname : Word (Text.trim " SIZE ".toList) := isName_eq_true.mp (by decide)
  have htext : Text.trim "0X8000000000000000".toList = "0X8000000000000000".toList := by
    decide
  have hdrain : (Scanner.ofSource (.ofText "size.x" "0X8000000000000000") .initial).drain.1 =
      [.error ⟨.single .first, .overflow "0X8000000000000000"⟩] := by decide +kernel
  obtain ⟨value, hparse, -, -, hint, -⟩ := int_iff_literal_alone hname htext "size.x" .initial
  rw [hint.mpr ⟨_, hdrain, rfl⟩] at hparse
  exact ⟨hname, htext, hdrain, hparse⟩

end Xdr
