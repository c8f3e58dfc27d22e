import Xdr.Proofs.Numeral
import Xdr.Proofs.Source.Characters
import Xdr.Token.Scanner

/-!
# Segments

What a text consists of, without a word on how it is read: blanks, comments
and directives, the spellings of lexemes, and what is none of these.  Every
segment says what its text may be and, where that matters, what may follow
it.

## Design Notes

A numeral grows from its first digit, one accepted character after the other
(`Numeral.continues`), so `0x` is a numeral without a value and `5x` is two
lexemes.
-/

namespace Xdr

open Lexer List Numeral Position String

variable {more after : List Char} {first c : Char} {here : Position}

/-- Comments and directives, up to and including what ends them.  The end of
a block comment is the first one after its beginning. -/
inductive Comment : List Char → Prop where
  | line {body} (h : '\n' ∉ body) : Comment ('/' :: '/' :: (body ++ ['\n']))
  | directive {mark body} (hmark : mark = '#' ∨ mark = '%') (h : '\n' ∉ body) :
      Comment (mark :: (body ++ ['\n']))
  | block {body} (h : ¬ ['*', '/'] <:+: body ++ ['*']) :
      Comment ('/' :: '*' :: (body ++ ['*', '/']))

/-- Letters, digits and underscores, of which the first is no digit. -/
inductive Word : List Char → Prop where
  | mk {c chars} (hfirst : beginsWord c) (hrest : ∀ d ∈ chars, continuesWord d) :
      Word (c :: chars)

/-- Characters after a sign, or none, each of which goes on with what stands
before it. -/
inductive Number : List Char → Prop where
  | mk {sign body} (hsign : sign ∈ [[], ['-'], ['+']]) (hne : body ≠ [])
      (hbody : ∀ front c back, body = front ++ c :: back →
        continues (sign ++ front) c) : Number (sign ++ body)

/-- The texts that spell a lexeme. -/
inductive Spells : List Char → Lexeme → Prop where
  | keyword {text} {keyword : Keyword} (hword : Word text)
      (h : text.map Char.toLower = keyword.spelling.toList) : Spells text (.keyword keyword)
  | word {text} (hword : Word text)
      (h : ∀ keyword : Keyword, text.map Char.toLower ≠ keyword.spelling.toList) :
      Spells text (.word (escapeWord (ofList text)))
  | literal {text} (hnumber : Number text) (h : check text = none) :
      Spells text (.literal (ofList text))
  | mark (mark : Mark) : Spells [mark.char] (.mark mark)

/-- The lexeme that `text` spells ends there: what comes after it does not
go on with it. -/
def Lexeme.EndsBefore (text after : List Char) : Lexeme → Prop
  | .word _ | .keyword _ => ∀ next ∈ after.head?, continuesWord next = false
  | .literal _ => ∀ next ∈ after.head?, continues text next = false
  | .mark m => m = .minus ∨ m = .plus → ∀ next ∈ after.head?, next.isDigit = false

/-- A character with which nothing begins. -/
structure Stray (c : Char) : Prop where
  blank : Text.isBlank c = false
  word : beginsWord c = false
  digit : c.isDigit = false
  mark : ∀ mark : Mark, mark.char ≠ c
  other : c ≠ '/' ∧ c ≠ '#' ∧ c ≠ '%'

/-- The texts that are reported, given what comes after them. -/
inductive Faulty (after : List Char) : List Char → LexError → Prop where
  | stray {c : Char} (h : Stray c) : Faulty after [c] (.badChar c)
  | slash (h : ∀ next ∈ after.head?, next ≠ '/' ∧ next ≠ '*') :
    Faulty after ['/'] (.badChar '/')
  | openComment {body} (hend : after = []) (h : ¬ ['*', '/'] <:+: body) :
      Faulty after ('/' :: '*' :: body) .openComment
  | badLiteral {text} (hnumber : Number text) (h : check text = some .malformed)
      (hend : ∀ next ∈ after.head?, continues text next = false) :
      Faulty after text (.badLiteral (ofList text))
  | overflow {text} (hnumber : Number text) (h : check text = some .overflow)
      (hend : ∀ next ∈ after.head?, continues text next = false) :
      Faulty after text (.overflow (ofList text))

/-! ### Characters -/

theorem isDigit_iff (c : Char) : c.isDigit = true ↔ 48 ≤ c.toNat ∧ c.toNat ≤ 57 := by
  simp only [Char.isDigit, Bool.and_eq_true, decide_eq_true_eq]
  exact Iff.rfl

theorem beginsWord_iff (c : Char) :
    beginsWord c = true ↔
      (65 ≤ c.toNat ∧ c.toNat ≤ 90) ∨ (97 ≤ c.toNat ∧ c.toNat ≤ 122) ∨ c.toNat = 95 := by
  have hupper : c.isUpper = true ↔ 65 ≤ c.toNat ∧ c.toNat ≤ 90 := decide_eq_true_iff
  have hlower : c.isLower = true ↔ 97 ≤ c.toNat ∧ c.toNat ≤ 122 := by
    change (decide (97 ≤ c.val) && decide (c.val ≤ 122)) = true ↔ _
    rw [Bool.and_eq_true, decide_eq_true_eq, decide_eq_true_eq]
    exact Iff.rfl
  have hunderscore : c = '_' ↔ c.toNat = 95 := Char.toNat_inj.symm
  have halpha : c.isAlpha = (c.isUpper || c.isLower) := rfl
  rw [beginsWord, halpha, Bool.or_eq_true, Bool.or_eq_true, beq_iff_eq, hupper, hlower,
    hunderscore, or_assoc]

theorem visible_of_continuesWord (h : continuesWord c = true) :
    33 ≤ c.toNat ∧ c.toNat ≤ 126 := by
  have hkind : beginsWord c = true ∨ c.isDigit = true := by
    simp only [continuesWord, Char.isAlphanum, beginsWord, Bool.or_eq_true] at h ⊢
    rwa [or_right_comm]
  rw [beginsWord_iff, isDigit_iff] at hkind
  omega

theorem visible_of_isDigitIn {base} (h : isDigitIn base c = true) :
    33 ≤ c.toNat ∧ c.toNat ≤ 126 := by
  obtain ⟨value, hvalue, -⟩ := isDigitIn_eq_true.mp h
  rw [digitValue?_eq_some] at hvalue
  omega

theorem visible_of_continues {literal} (h : continues literal c = true) :
    33 ≤ c.toNat ∧ c.toNat ≤ 126 := by
  rw [continues] at h
  split at h
  · exact visible_of_isDigitIn h
  · simp only [Bool.or_eq_true, Bool.and_eq_true, beq_iff_eq] at h
    obtain hdigit | ⟨-, rfl | rfl⟩ := h
    · exact visible_of_isDigitIn hdigit
    · decide
    · decide

/-- A visible character takes one column of its line. -/
theorem plain_of_visible (h : 33 ≤ c.toNat ∧ c.toNat ≤ 126) : c ≠ '\n' ∧ c ≠ '\t' := by
  constructor <;> rintro rfl <;> revert h <;> decide

theorem sign_cases {sign} (h : sign ∈ [[], ['-'], ['+']]) :
    sign = [] ∨ sign = ['-'] ∨ sign = ['+'] := by
  simpa using h

namespace Numeral

theorem isDigitIn_ten (c : Char) : isDigitIn 10 c = c.isDigit := by
  rw [Bool.eq_iff_iff, isDigit_iff, isDigitIn_of_le_ten (Nat.le_refl _)]

/-- Decimal digits are no mark of a hexadecimal spelling. -/
theorem hexBody?_eq_none (h : ∀ c ∈ more, isDigitIn 10 c = true) :
    hexBody? (first :: more) = none := by
  rw [hexBody?.eq_def]
  split
  · next cs heq =>
    obtain ⟨-, rfl⟩ := cons.inj heq
    exact absurd (h 'x' mem_cons_self) (by decide)
  · next cs heq =>
    obtain ⟨-, rfl⟩ := cons.inj heq
    exact absurd (h 'X' mem_cons_self) (by decide)
  · rfl

section Growth

variable {sign : List Char} (hsign : sign ∈ [[], ['-'], ['+']])
include hsign

/-- A first digit ends the sign. -/
theorem dropWhile_sign (hfirst : first.isDigit = true) (more : List Char) :
    (sign ++ first :: more).dropWhile (fun c => c == '-' || c == '+') = first :: more := by
  have hstop : (first :: more).dropWhile (fun c => c == '-' || c == '+') = first :: more := by
    apply dropWhile_cons_of_neg
    intro h
    rcases (by simpa using h : first = '-' ∨ first = '+') with rfl | rfl <;> cases hfirst
  rcases sign_cases hsign with rfl | rfl | rfl <;> exact hstop

/-- Hexadecimal digits go on with the mark. -/
theorem continues_hex {mark} (hmark : mark = 'x' ∨ mark = 'X') (more : List Char) (c : Char) :
    continues (sign ++ '0' :: mark :: more) c = isDigitIn 16 c := by
  have hhex : (hexBody? ('0' :: mark :: more)).isSome = true := by
    rcases hmark with rfl | rfl <;> rfl
  rw [continues, dropWhile_sign hsign rfl]
  exact if_pos hhex

/-- Decimal digits go on with decimal digits, and so does the mark with a
single zero. -/
theorem continues_decimal (hfirst : first.isDigit = true)
    (hmore : ∀ c ∈ more, isDigitIn 10 c = true) (c : Char) :
    continues (sign ++ first :: more) c =
      (isDigitIn 10 c || (first :: more == ['0'] && (c == 'x' || c == 'X'))) := by
  rw [continues, dropWhile_sign hsign hfirst]
  simp only [hexBody?_eq_none hmore, Option.isSome_none, Bool.false_eq_true, if_false]

/-- A numeral grows from its first digit. -/
theorem number_cons (hfirst : first.isDigit = true)
    (h : ∀ front c back,
      more = front ++ c :: back → continues (sign ++ first :: front) c = true) :
    Number (sign ++ first :: more) := by
  refine .mk hsign (cons_ne_nil _ _) fun front c back heq => ?_
  cases front with
  | nil =>
    cases heq
    rw [append_nil, continues]
    rcases sign_cases hsign with rfl | rfl | rfl <;>
      simp [hexBody?, isDigitIn_ten, hfirst]
  | cons d front =>
    cases heq
    exact h front c back rfl

theorem number_hex {mark} (hmark : mark = 'x' ∨ mark = 'X') {more}
    (hmore : ∀ c ∈ more, isDigitIn 16 c = true) : Number (sign ++ '0' :: mark :: more) := by
  refine number_cons hsign rfl fun front c back heq => ?_
  cases front with
  | nil =>
    cases heq
    rw [continues_decimal hsign rfl (by simp)]
    rcases hmark with rfl | rfl <;> rfl
  | cons d front =>
    obtain ⟨rfl, htail⟩ := cons.inj heq
    rw [continues_hex hsign hmark]
    apply hmore
    rw [htail]
    exact mem_append_right _ mem_cons_self

theorem number_decimal {first : Char} (hfirst : first.isDigit = true) {more}
    (hmore : ∀ c ∈ more, isDigitIn 10 c = true) : Number (sign ++ first :: more) := by
  refine number_cons hsign hfirst fun front c back heq => ?_
  subst heq
  rw [continues_decimal hsign hfirst fun d hd => hmore d (mem_append_left _ hd),
    hmore c (mem_append_right _ mem_cons_self)]
  rfl

end Growth

end Numeral

theorem Word.visible {text} (h : Word text) : ∀ c ∈ text, 33 ≤ c.toNat ∧ c.toNat ≤ 126 := by
  obtain ⟨hfirst, hrest⟩ := h
  intro c hc
  rcases mem_cons.mp hc with rfl | hc
  · rw [beginsWord_iff] at hfirst
    omega
  · exact visible_of_continuesWord (hrest c hc)

theorem Number.ne_nil {text} (h : Number text) : text ≠ [] := by
  obtain ⟨-, hne, -⟩ := h
  exact append_ne_nil_of_right_ne_nil _ hne

theorem Number.visible {text} (h : Number text) :
    ∀ c ∈ text, 33 ≤ c.toNat ∧ c.toNat ≤ 126 := by
  obtain ⟨hsign, -, hbody⟩ := h
  intro c hc
  rcases mem_append.mp hc with hc | hc
  · rcases sign_cases hsign with rfl | rfl | rfl
    · cases hc
    · obtain rfl := mem_singleton.mp hc
      decide
    · obtain rfl := mem_singleton.mp hc
      decide
  · obtain ⟨front, back, heq⟩ := append_of_mem hc
    exact visible_of_continues (hbody front c back heq)

theorem Number.plain {text} (h : Number text) : ∀ c ∈ text, c ≠ '\n' ∧ c ≠ '\t' :=
  fun c hc => plain_of_visible (h.visible c hc)

theorem Spells.ne_nil {text lexeme} (h : Spells text lexeme) : text ≠ [] := by
  cases h with
  | keyword hword | word hword =>
    cases hword
    exact cons_ne_nil _ _
  | literal hnumber => exact hnumber.ne_nil
  | mark => exact cons_ne_nil _ _

theorem Spells.plain {text lexeme} (h : Spells text lexeme) :
    ∀ c ∈ text, c ≠ '\n' ∧ c ≠ '\t' := by
  cases h with
  | keyword hword | word hword => exact fun c hc => plain_of_visible (hword.visible c hc)
  | literal hnumber => exact hnumber.plain
  | mark mark =>
    intro c hc
    obtain rfl := mem_singleton.mp hc
    cases mark <;> decide

theorem Keyword.mem_all (keyword : Keyword) : keyword ∈ Keyword.all := by
  cases keyword <;> decide

theorem Word.spells {text} (h : Word text) :
    Spells text (wordLexeme (ofList text)) := by
  rw [wordLexeme]
  cases hkeyword : Keyword.ofWord? (ofList text) with
  | some keyword =>
    have hsame : keyword.spelling.toList = text.map Char.toLower := by
      simpa using find?_some hkeyword
    exact .keyword h hsame.symm
  | none =>
    refine .word h fun keyword hsame => ?_
    have hother := find?_eq_none.mp hkeyword keyword keyword.mem_all
    simp [hsame] at hother

theorem Faulty.exists_first {text fault} (h : Faulty after text fault) :
    ∃ c more, text = c :: more ∧ c ≠ '\n' ∧ c ≠ '\t' := by
  cases h with
  | stray h =>
    refine ⟨_, [], rfl, ?_, ?_⟩ <;> rintro rfl <;> exact absurd h.blank (by decide)
  | slash | openComment => exact ⟨'/', _, rfl, by decide, by decide⟩
  | badLiteral hnumber | overflow hnumber =>
    obtain ⟨c, more, rfl⟩ := exists_cons_of_ne_nil hnumber.ne_nil
    exact ⟨c, more, rfl, hnumber.plain c mem_cons_self⟩

/-- The place of a reply. -/
def Lexer.Reply.span : Reply → Span
  | .ok token => Located.span token
  | .error error => Located.span error

/-- A lexeme or an error in the light of the names known. -/
def Symbols.reply (symbols : Symbols) : Result → Reply
  | .ok lexeme => .ok ⟨lexeme.span, symbols.classify lexeme.value⟩
  | .error error => .error error

/-- A piece of a source. -/
inductive Segment where
  | blank (c : Char)
  | comment (text : List Char)
  | lexeme (text : List Char) (lexeme : Lexeme)
  | error (text : List Char) (error : LexError)

namespace Segment

/-- The characters of a segment. -/
def text : Segment → List Char
  | .blank c => [c]
  | .comment remark => remark
  | .lexeme spelling _ => spelling
  | .error spelling _ => spelling

/-- What a segment has to be, given the characters after it. -/
def Proper (after : List Char) : Segment → Prop
  | .blank c => Text.isBlank c = true
  | .comment remark => Comment remark
  | .lexeme spelling found => Spells spelling found ∧ found.EndsBefore spelling after
  | .error spelling fault => Faulty after spelling fault

/-- Segments one after the other, each of which is proper before the rest. -/
inductive AllProper : List Segment → Prop where
  | nil : AllProper []
  | cons {segment : Segment} {segments : List Segment} (h :
    segment.Proper (segments.flatMap text))
      (hrest : AllProper segments) : AllProper (segment :: segments)

/-- What a segment that begins at `here` is answered with, given the names
known: a token from its first character up to the column after its last, an
error at its first character, and nothing else. -/
def reply? (symbols : Symbols) (here : Position) : Segment → Option Reply
  | .lexeme spelling found =>
    some (.ok ⟨⟨here, (here.past spelling.dropLast).advance⟩, symbols.classify found⟩)
  | .error _ fault => some (.error ⟨.single here, fault⟩)
  | _ => none

/-- What segments are answered with, the first of which begins at `here`. -/
def replies (symbols : Symbols) (here : Position) : List Segment → List Reply
  | [] => []
  | segment :: segments =>
    (segment.reply? symbols here).toList ++ replies symbols (here.past segment.text) segments

variable {symbols : Symbols} {segments : List Segment}

theorem Proper.text_ne_nil {segment : Segment} (h : segment.Proper after) :
    segment.text ≠ [] := by
  cases segment with
  | blank c => exact cons_ne_nil _ _
  | comment remark => cases h <;> exact cons_ne_nil _ _
  | lexeme spelling found => exact h.1.ne_nil
  | error spelling fault =>
    cases h with
    | stray | slash | openComment => exact cons_ne_nil _ _
    | badLiteral hnumber | overflow hnumber => exact hnumber.ne_nil

/-- A reply is placed at the first character of its segment, on one line and
within the segment. -/
theorem Proper.span {segment : Segment} {reply} (h : segment.Proper after)
    (hreply : segment.reply? symbols here = some reply) :
    reply.span.start = here ∧ reply.span.stop.line = here.line ∧ here < reply.span.stop ∧
      reply.span.stop ≤ here.past segment.text := by
  cases segment with
  | blank | comment => cases hreply
  | lexeme spelling found =>
    cases hreply
    obtain ⟨hspells, -⟩ := h
    have hstop := past_eq_advance hspells.plain hspells.ne_nil here
    simp only [Reply.span, text, ← hstop]
    refine ⟨trivial, line_past hspells.plain here, ?_, le_refl _⟩
    obtain ⟨c, more, rfl⟩ := exists_cons_of_ne_nil hspells.ne_nil
    exact lt_of_lt_of_le (lt_after here c) (le_past _ more)
  | error spelling fault =>
    cases hreply
    obtain ⟨c, more, rfl, hnewline, htab⟩ := Faulty.exists_first h
    have hafter := after_eq_advance here hnewline htab
    simp only [Reply.span, Span.single, text, past_cons, ← hafter]
    refine ⟨trivial, ?_, lt_after here c, le_past _ more⟩
    rw [hafter]
    rfl

/-- Every reply is that of a segment. -/
theorem AllProper.exists_of_mem (h : AllProper segments) {reply}
    (hmem : reply ∈ replies symbols here segments) :
    ∃ (segment : Segment) (after : List Char) (place : Position),
      segment.Proper after ∧ here ≤ place ∧ segment.reply? symbols place = some reply := by
  induction h generalizing here with
  | nil => cases hmem
  | @cons segment segments hproper _ ih =>
    rw [replies, mem_append, Option.mem_toList] at hmem
    rcases hmem with hreply | hmem
    · exact ⟨segment, _, here, hproper, le_refl here, hreply⟩
    · obtain ⟨found, after, place, hfound, hle, hreply⟩ := ih hmem
      exact ⟨found, after, place, hfound, le_trans (le_past _ _) hle, hreply⟩

theorem AllProper.le_start (h : AllProper segments) :
    ∀ reply ∈ replies symbols here segments, here ≤ reply.span.start := by
  intro reply hmem
  obtain ⟨segment, after, place, hproper, hle, hreply⟩ := h.exists_of_mem hmem
  rwa [(hproper.span hreply).1]

theorem AllProper.span (h : AllProper segments) :
    ∀ reply ∈ replies symbols here segments, reply.span.start.line = reply.span.stop.line ∧
      reply.span.start < reply.span.stop := by
  intro reply hmem
  obtain ⟨segment, after, place, hproper, -, hreply⟩ := h.exists_of_mem hmem
  obtain ⟨hstart, hline, hlt, -⟩ := hproper.span hreply
  rw [hstart, hline]
  exact ⟨rfl, hlt⟩

theorem AllProper.pairwise (h : AllProper segments) (here : Position) :
    (replies symbols here segments).Pairwise fun reply later =>
      reply.span.stop ≤ later.span.start := by
  induction h generalizing here with
  | nil => exact List.Pairwise.nil
  | @cons segment segments hproper hrest ih =>
    rw [replies, pairwise_append]
    refine ⟨?_, ih _, fun reply hreply later hlater => ?_⟩
    · cases segment.reply? symbols here <;> simp
    · obtain ⟨-, -, -, hstop⟩ := hproper.span (Option.mem_toList.mp hreply)
      exact le_trans hstop (hrest.le_start later hlater)

end Segment

namespace Lexer

/-- The replies to one call of `next` after the other, up to the first
without a result.  Each call that has one takes at least one item. -/
inductive Calls (symbols : Symbols) : Lexer → List Reply → Prop where
  | done {lexer after : Lexer} (h : lexer.next = (none, after)) : Calls symbols lexer []
  | more {lexer after : Lexer} {result replies} (h : lexer.next = (some result, after))
      (hshorter : after.rest.length < lexer.rest.length)
      (hrest : Calls symbols after replies) :
      Calls symbols lexer (symbols.reply result :: replies)

end Lexer
end Xdr
