import Mathlib.Data.List.TakeWhile
import Xdr.Proofs.Token.Exhaustion

/-!
# Reading segments back

Any sequence of proper segments is read as that sequence: the lexer answers
each lexeme and each fault in turn and passes over the rest.  So a text has
one meaning at this level, however it was put together.

## Main Statements

* `Number.exists_longest` — a numeral is as long as it can be
* `Lexer.grown_append` — what goes on is read to its end
* `Lexer.scan_block_closed`, `Lexer.scan_block_open` — a block comment ends
  with the first star and slash
* `Spells.eq_wordLexeme` — a word spells one lexeme
* `Lexer.scan_gap`, `Lexer.scan_answer` — one segment, before anything
* `Lexer.results_append` — all segments of a text, and what follows them

## Design Notes

Within a block comment the state after a star stands for that star
(`Gap.before`), so both states of a comment are one case.
-/

namespace Xdr

open Lexer List Numeral Segment Source

variable {c : Char} {chars : List Char} {segments : List Segment} {gap : Gap}

/-! ### Characters -/

theorem isBlank_eq_false (h : 33 ≤ c.toNat ∧ c.toNat ≤ 126) : Text.isBlank c = false := by
  simp only [Text.isBlank, Bool.or_eq_false_iff, Bool.and_eq_false_iff,
    decide_eq_false_iff_not, beq_eq_false_iff_ne]
  omega

/-- A character that neither is blank nor opens a comment. -/
def EndsGap (c : Char) : Prop :=
  Text.isBlank c = false ∧ c ≠ '/' ∧ c ≠ '#' ∧ c ≠ '%'

theorem endsGap_of_isDigit (h : c.isDigit = true) : EndsGap c := by
  rw [isDigit_iff] at h
  refine ⟨isBlank_eq_false (by omega), ?_, ?_, ?_⟩ <;> rintro rfl <;> revert h <;> decide

theorem endsGap_of_beginsWord (h : beginsWord c = true) : EndsGap c := by
  rw [beginsWord_iff] at h
  refine ⟨isBlank_eq_false (by omega), ?_, ?_, ?_⟩ <;> rintro rfl <;> revert h <;> decide

theorem not_beginsWord_of_isDigit (h : c.isDigit = true) : beginsWord c = false := by
  rw [isDigit_iff] at h
  rw [Bool.eq_false_iff, Ne, beginsWord_iff]
  omega

/-! ### One spelling, one lexeme -/

/-- A numeral has a digit after its sign. -/
theorem Number.exists_digit {text} (h : Number text) :
    ∃ sign first more, text = sign ++ first :: more ∧ sign ∈ [[], ['-'], ['+']] ∧
      first.isDigit = true ∧
      ∀ front c back, first :: more = front ++ c :: back →
      continues (sign ++ front) c = true := by
  cases h with
  | @mk sign body hsign hne hbody =>
  obtain ⟨first, more, rfl⟩ := exists_cons_of_ne_nil hne
  refine ⟨sign, first, more, rfl, hsign, ?_, hbody⟩
  have hfirst := hbody [] first more rfl
  rcases sign_cases hsign with rfl | rfl | rfl <;>
    simpa [continues, hexBody?, isDigitIn_ten] using hfirst

/-- A numeral goes on with what it accepts. -/
theorem Number.concat {text} (h : Number text) (hc : continues text c = true) :
    Number (text ++ [c]) := by
  cases h with
  | @mk sign body hsign hne hbody =>
  rw [append_assoc]
  refine .mk hsign (append_ne_nil_of_right_ne_nil _ (cons_ne_nil _ _)) fun front d back heq =>
    ?_
  rcases eq_nil_or_concat back with rfl | ⟨back, last, rfl⟩
  · obtain ⟨rfl, hlast⟩ := append_inj' heq rfl
    cases hlast
    exact hc
  · have hsplit : body ++ [c] = (front ++ d :: back) ++ [last] := by simpa using heq
    exact hbody front d back (append_inj' hsplit rfl).1

/-- A numeral is as long as it can be. -/
theorem Number.exists_longest {text} (h : Number text) (chars : List Char) :
    ∃ more rest, chars = more ++ rest ∧ Number (text ++ more) ∧
      ∀ next ∈ rest.head?, continues (text ++ more) next = false := by
  induction chars generalizing text with
  | nil => exact ⟨[], [], rfl, by rwa [append_nil], nofun⟩
  | cons c chars ih =>
    by_cases hc : continues text c = true
    · obtain ⟨more, rest, rfl, hnumber, hend⟩ := ih (h.concat hc)
      rw [append_assoc] at hnumber hend
      exact ⟨c :: more, rest, rfl, hnumber, hend⟩
    · refine ⟨[], c :: chars, rfl, by rwa [append_nil], ?_⟩
      simpa using hc

/-- A numeral begins with its sign or with a digit. -/
theorem Number.endsGap (h : Number (c :: chars)) : EndsGap c ∧ beginsWord c = false := by
  obtain ⟨sign, first, more, heq, hsign, hfirst, -⟩ := h.exists_digit
  rcases sign_cases hsign with rfl | rfl | rfl
  · obtain ⟨rfl, -⟩ := cons.inj heq
    exact ⟨endsGap_of_isDigit hfirst, not_beginsWord_of_isDigit hfirst⟩
  all_goals
    obtain ⟨rfl, -⟩ := cons.inj heq
    exact ⟨⟨isBlank_eq_false (by decide), by decide, by decide, by decide⟩, by decide⟩

theorem Keyword.spelling_injective {keyword keyword' : Keyword}
    (h : keyword.spelling.toList = keyword'.spelling.toList) : keyword = keyword' := by
  cases keyword <;> cases keyword' <;> first | rfl | exact absurd h (by decide)

/-- A word spells one lexeme. -/
theorem Spells.eq_wordLexeme {text found} (hword : Word text) (h : Spells text found) :
    found = wordLexeme (String.ofList text) := by
  have hsame : ∀ keyword, Keyword.ofWord? (String.ofList text) = some keyword →
      text.map Char.toLower = keyword.spelling.toList := by
    intro keyword hkeyword
    have hspelling : keyword.spelling.toList = text.map Char.toLower := by
      simpa using find?_some hkeyword
    exact hspelling.symm
  cases h with
  | @keyword _ keyword _ hlower =>
    rw [wordLexeme]
    split
    · next other hother =>
      rw [Keyword.spelling_injective (hlower.symm.trans (hsame other hother))]
    · next hnone =>
      have hother := find?_eq_none.mp hnone keyword keyword.mem_all
      simp [hlower] at hother
  | word _ hnone =>
    rw [wordLexeme]
    split
    · next keyword hkeyword => exact absurd (hsame keyword hkeyword) (hnone keyword)
    · rfl
  | literal hnumber =>
    obtain ⟨hfirst, -⟩ := hword
    cases hnumber.endsGap.2.symm.trans hfirst
  | mark mark =>
    obtain ⟨hfirst, -⟩ := hword
    cases mark <;> cases hfirst

namespace Lexer

/-- Items that do not go on with what stands before them: none, or first a
line that cannot be read. -/
def Inert (tail : List Item) : Prop :=
  ∀ c next, .char c next ∉ tail.head?

theorem inert_nil : Inert [] := nofun

theorem inert_unreadable (later : List Item) : Inert (.unreadable :: later) := nofun

theorem eq_false_of_mem_head?_dropWhile {p next} (h : next ∈ (chars.dropWhile p).head?) :
    p next = false := by
  have hnot := head?_dropWhile_not p chars
  rwa [Option.mem_def.mp h] at hnot

section Tail

variable {tail : List Item} (htail : Inert tail)
include htail

variable {rest : List Char}

/-- What goes on is read to its end. -/
theorem grown_append {goesOn text more}
    (hmore : ∀ front c back, more = front ++ c :: back → goesOn (text ++ front) c = true)
    (hend : ∀ next ∈ rest.head?, goesOn (text ++ more) next = false) (here : Position) :
    grown goesOn text here (itemsAt here (more ++ rest) ++ tail) =
      (more, here.past more, itemsAt (here.past more) rest ++ tail) := by
  induction more generalizing text here with
  | nil =>
    rw [append_nil] at hend
    cases rest with
    | nil =>
      rw [append_nil, itemsAt_nil, nil_append, grown.eq_def]
      split
      · exact absurd rfl (htail _ _)
      · rfl
    | cons next rest =>
      rw [nil_append, itemsAt_cons, cons_append, grown, if_neg (by simp [hend next rfl])]
      rfl
  | cons c more ih =>
    have hc := hmore [] c more rfl
    rw [append_nil] at hc
    have hrest : ∀ front d back, more = front ++ d :: back →
      goesOn (text ++ [c] ++ front) d = true := by
      intro front d back heq
      rw [append_assoc]
      exact hmore (c :: front) d back (congrArg (c :: ·) heq)
    rw [cons_append, itemsAt_cons, cons_append, grown, if_pos hc,
      ih hrest (by rwa [append_assoc])]
    rfl

theorem run_append {p} (hchars : ∀ c ∈ chars, p c = true)
    (hend : ∀ next ∈ rest.head?, p next = false) (here : Position) :
    run p here (itemsAt here (chars ++ rest) ++ tail) =
      (chars, here.past chars, itemsAt (here.past chars) rest ++ tail) := by
  rw [← @grown_eq_run (fun _ => p) p [] fun _ _ _ => rfl]
  refine grown_append htail (fun front c back heq => hchars c ?_) hend here
  simp [heq]

/-- The digits of a numeral are read to its end. -/
theorem digits_append {sign} {first : Char} {more} (hsign : sign ∈ [[], ['-'], ['+']])
    (hfirst : first.isDigit = true)
    (hgrows : ∀ front c back, first :: more = front ++ c :: back →
      continues (sign ++ front) c = true)
    (hend : ∀ next ∈ rest.head?, continues (sign ++ first :: more) next = false)
    (here : Position) :
    digits first here (itemsAt here (more ++ rest) ++ tail) =
      (more, here.past more, itemsAt (here.past more) rest ++ tail) := by
  rw [digits_eq_grown hsign hfirst]
  refine grown_append htail (fun front c back heq => ?_) (by simpa using hend) here
  simpa using hgrows (first :: front) c back (congrArg (first :: ·) heq)

/-! ### One segment -/

omit htail in
theorem scan_endsGap (h : EndsGap c) (start here : Position) (chars : List Char) :
    scan start here .blank (itemsAt here (c :: chars) ++ tail) =
      lexeme c here (here.after c) (itemsAt (here.after c) chars ++ tail) := by
  obtain ⟨hblank, hslash, hhash, hpercent⟩ := h
  rw [itemsAt_cons, cons_append, scan, if_neg (by simp [hblank]),
    if_neg (by simpa using hslash), if_neg (by simpa using ⟨hhash, hpercent⟩)]

/-- A word is read to its end. -/
theorem lexeme_word (hword : Word (c :: chars))
    (hend : ∀ next ∈ rest.head?, continuesWord next = false) (here : Position) :
    lexeme c here (here.after c) (itemsAt (here.after c) (chars ++ rest) ++ tail) =
      (some (.ok ⟨⟨here, here.past (c :: chars)⟩, wordLexeme (String.ofList (c :: chars))⟩),
        ⟨here, here.past (c :: chars), itemsAt (here.past (c :: chars)) rest ++ tail⟩) := by
  obtain ⟨hfirst, hrest⟩ := hword
  unfold lexeme
  rw [if_pos hfirst, run_append htail hrest hend]
  rfl

/-- A numeral is read to its end, with its sign. -/
theorem lexeme_number (hnumber : Number (c :: chars))
    (hend : ∀ next ∈ rest.head?, continues (c :: chars) next = false) (here : Position) :
    lexeme c here (here.after c) (itemsAt (here.after c) (chars ++ rest) ++ tail) =
      numeral here (c :: chars) (here.past (c :: chars))
        (itemsAt (here.past (c :: chars)) rest ++ tail) := by
  have hword : ¬ beginsWord c = true := by simp [hnumber.endsGap.2]
  obtain ⟨sign, first, more, heq, hsign, hfirst, hgrows⟩ := hnumber.exists_digit
  rcases sign_cases hsign with rfl | hsigned
  · obtain ⟨rfl, rfl⟩ := cons.inj heq
    unfold lexeme
    rw [if_neg hword, if_pos hfirst, digits_append htail hsign hfirst hgrows hend]
    rfl
  · obtain ⟨rfl, rfl, hsign', hdigit⟩ : [c] = sign ∧ chars = first :: more ∧
      (c == '-' || c == '+') = true ∧
        ¬ c.isDigit = true := by
      rcases hsigned with rfl | rfl <;> obtain ⟨rfl, rfl⟩ := cons.inj heq <;>
        exact ⟨rfl, rfl, by decide, by decide⟩
    unfold lexeme
    rw [if_neg hword, if_neg hdigit, if_pos hsign', cons_append, itemsAt_cons, cons_append]
    simp only [hfirst, if_true]
    rw [digits_append htail hsign hfirst hgrows hend]
    rfl

/-- A mark is read as itself, a sign where no digit follows. -/
theorem scan_mark {mark : Mark} (hend : Lexeme.EndsBefore [mark.char] rest (.mark mark))
    (start here : Position) :
    scan start here .blank (itemsAt here (mark.char :: rest) ++ tail) =
      (some (.ok ⟨⟨here, here.after mark.char⟩, .mark mark⟩),
        ⟨here, here.after mark.char, itemsAt (here.after mark.char) rest ++ tail⟩) := by
  have hgap : EndsGap mark.char := by
    cases mark <;> exact ⟨isBlank_eq_false (by decide), by decide, by decide, by decide⟩
  rw [scan_endsGap hgap]
  by_cases hsign : mark = .minus ∨ mark = .plus
  · have hplain : beginsWord mark.char = false ∧ mark.char.isDigit = false ∧
        (mark.char == '-' || mark.char == '+') = true ∧
        (if mark.char = '-' then Mark.minus else .plus) = mark := by
      rcases hsign with rfl | rfl <;> decide
    cases rest with
    | nil =>
      simp only [lexeme, hplain, itemsAt_nil, nil_append, Bool.false_eq_true, if_false,
        if_true, beq_iff_eq]
      split
      · exact absurd rfl (htail _ _)
      · rfl
    | cons next more => simp [lexeme, hplain, hend hsign next rfl]
  · rw [not_or] at hsign
    have hplain : beginsWord mark.char = false ∧ mark.char.isDigit = false ∧
        (mark.char == '-' || mark.char == '+') = false ∧
        Mark.ofChar? mark.char = some mark := by
      cases mark <;> first | decide | exact absurd rfl hsign.1 | exact absurd rfl hsign.2
    simp [lexeme, hplain]

omit htail in
theorem scan_stray (h : Stray c) (start here : Position) :
    scan start here .blank (itemsAt here (c :: rest) ++ tail) =
      (some (.error ⟨.single here, .badChar c⟩), ⟨here, here.after c,
        itemsAt (here.after c) rest ++ tail⟩) := by
  have hsign : (c == '-' || c == '+') = false := by
    simpa using ⟨(h.mark .minus).symm, (h.mark .plus).symm⟩
  have hmark : Mark.ofChar? c = none := by
    rw [Mark.ofChar?, find?_eq_none]
    exact fun mark _ => by simpa using h.mark mark
  rw [scan_endsGap ⟨h.blank, h.other⟩]
  simp [lexeme, h.word, h.digit, hsign, hmark]

end Tail

/-- The rest of a line is skipped. -/
theorem scan_line {body} (hbody : '\n' ∉ body) (start here : Position) (items : List Item) :
    scan start here .line (itemsAt here (body ++ ['\n']) ++ items) =
      scan start (here.past (body ++ ['\n'])) .blank items := by
  induction body generalizing here with
  | nil => simp [scan]
  | cons c body ih =>
    obtain ⟨hc, hbody⟩ : '\n' ≠ c ∧ '\n' ∉ body := by simpa using hbody
    rw [cons_append, itemsAt_cons, cons_append, scan,
      if_neg (by simpa using hc.symm), ih hbody]
    rfl

/-- What a block comment has in front of what is left of it: a star, if that
was just read. -/
def Gap.before : Gap → List Char
  | .star => ['*']
  | _ => []

/-- Within a block comment each character leads to one of the two gaps of
such a comment, and the star that this gap stands for is that character. -/
theorem scan_comment (hgap : gap = .block ∨ gap = .star)
    (hopen : ¬ ['*', '/'] <:+: gap.before ++ c :: chars) :
    ∃ gap' : Gap, (gap' = .block ∨ gap' = .star) ∧ gap'.before ++ chars <:+ c :: chars ∧
      ∀ start here items,
        scan start here gap (.char c (here.after c) :: items) =
          scan start (here.after c) gap' items := by
  have hslash : gap = .star → c ≠ '/' := by
    rintro rfl rfl
    exact hopen ⟨[], chars, rfl⟩
  by_cases hstar : c = '*'
  · subst hstar
    refine ⟨.star, .inr rfl, suffix_refl _, fun start here items => ?_⟩
    rcases hgap with rfl | rfl <;> rfl
  · refine ⟨.block, .inl rfl, suffix_cons _ _, fun start here items => ?_⟩
    rcases hgap with rfl | rfl
    · simp [scan, hstar]
    · simp [scan, hstar, hslash rfl]

/-- A block comment ends with the first star and slash. -/
theorem scan_block_closed (hgap : gap = .block ∨ gap = .star) {body}
    (hopen : ¬ ['*', '/'] <:+: gap.before ++ (body ++ ['*'])) (start here : Position)
    (items : List Item) :
    scan start here gap (itemsAt here (body ++ ['*', '/']) ++ items) =
      scan start (here.past (body ++ ['*', '/'])) .blank items := by
  induction body generalizing gap here with
  | nil => rcases hgap with rfl | rfl <;> rfl
  | cons c body ih =>
    obtain ⟨gap', hgap', hsuffix, hscan⟩ := scan_comment hgap hopen
    have hopen' : ¬ ['*', '/'] <:+: gap'.before ++ (body ++ ['*']) := fun h =>
      hopen ((h.trans hsuffix.isInfix).trans (suffix_append _ _).isInfix)
    rw [cons_append, itemsAt_cons, cons_append, hscan, ih hgap' hopen']
    rfl

/-- Without a star and slash a block comment takes all that is left. -/
theorem scan_block_open (hgap : gap = .block ∨ gap = .star)
    (hopen : ¬ ['*', '/'] <:+: gap.before ++ chars)
    (start here : Position) (items : List Item) :
    ∃ gap' : Gap, (gap' = .block ∨ gap' = .star) ∧
      scan start here gap (itemsAt here chars ++ items) =
        scan start (here.past chars) gap' items := by
  induction chars generalizing gap here with
  | nil => exact ⟨gap, hgap, rfl⟩
  | cons c chars ih =>
    obtain ⟨gap', hgap', hsuffix, hscan⟩ := scan_comment hgap hopen
    have hopen' : ¬ ['*', '/'] <:+: gap'.before ++ chars := fun h =>
      hopen ((h.trans hsuffix.isInfix).trans (suffix_append _ _).isInfix)
    rw [itemsAt_cons, cons_append, hscan]
    exact ih hgap' hopen' _

/-- What opens a block comment leads into it. -/
theorem scan_opening (start here : Position) (items : List Item) :
    scan start here .blank (itemsAt here ['/', '*'] ++ items) =
      scan here (here.past ['/', '*']) .block items := by
  simp [scan, isBlank_eq_false]

/-- A comment or directive is passed over. -/
theorem scan_remark {remark} (h : Comment remark) (start here : Position)
    (items : List Item) : scan start here .blank (itemsAt here remark ++ items) =
      scan here (here.past remark) .blank items := by
  cases h with
  | @line body hbody =>
    refine Eq.trans ?_ (scan_line hbody here (here.past ['/', '/']) items)
    simp [scan, isBlank_eq_false]
  | @directive mark body hmark hbody =>
    refine Eq.trans ?_ (scan_line hbody here (here.past [mark]) items)
    rcases hmark with rfl | rfl <;> simp [scan, isBlank_eq_false]
  | @block body hbody =>
    refine Eq.trans ?_ (scan_block_closed (.inl rfl) hbody here (here.past ['/', '*']) items)
    exact scan_opening start here _

end Lexer

namespace Segment

/-- What a segment that begins at `here` is read as. -/
def result? (here : Position) : Segment → Option Result
  | .lexeme spelling found => some (.ok ⟨⟨here, here.past spelling⟩, found⟩)
  | .error _ fault => some (.error ⟨.single here, fault⟩)
  | .blank _ | .comment _ => none

/-- What segments are read as, the first of which begins at `here`. -/
def results (here : Position) : List Segment → List Result
  | [] => []
  | segment :: segments =>
    (segment.result? here).toList ++ results (here.past segment.text) segments

theorem results_append (here : Position) (segments others : List Segment) :
    results here (segments ++ others) =
      results here segments ++ results (here.past (segments.flatMap text)) others := by
  induction segments generalizing here with
  | nil => rfl
  | cons segment segments ih =>
    rw [cons_append, results, ih, results, flatMap_cons, Position.past_append, append_assoc]

/-- Where the last of some segments begins, the first of which begins at
`here`. -/
def origin (start here : Position) : List Segment → Position
  | [] => start
  | segment :: segments => origin here (here.past segment.text) segments

/-- The last of some segments, if there is any, is read as nothing. -/
def EndsInGap (segments : List Segment) : Prop :=
  ∀ segment ∈ segments.getLast?, ∀ here, segment.result? here = none

theorem EndsInGap.of_cons {segment} (h : EndsInGap (segment :: segments)) :
    EndsInGap segments := by
  cases segments with
  | nil => exact nofun
  | cons next segments =>
    rw [EndsInGap, getLast?_cons_cons] at h
    exact h

theorem origin_concat (start here : Position) (segments : List Segment) (last : Segment) :
    origin start here (segments ++ [last]) = here.past (segments.flatMap text) := by
  induction segments generalizing start here with
  | nil => rfl
  | cons segment segments ih =>
    rw [cons_append, origin, ih, flatMap_cons, Position.past_append]

theorem AllProper.of_append {others} (h : AllProper (segments ++ others)) :
    AllProper others := by
  induction segments with
  | nil => exact h
  | cons segment segments ih =>
    rw [cons_append] at h
    cases h with
    | cons _ hrest => exact ih hrest

theorem AllProper.eq_nil (h : AllProper segments) (hnil : segments.flatMap text = []) :
    segments = [] := by
  cases h with
  | nil => rfl
  | cons hproper => exact absurd (append_eq_nil_iff.mp hnil).1 hproper.text_ne_nil

/-- The lexeme that a segment spells. -/
def lexeme? : Segment → Option Lexeme
  | .lexeme _ found => some found
  | _ => none

/-- What is reported of a segment. -/
def fault? : Segment → Option LexError
  | .error _ fault => some fault
  | _ => none

theorem map_value_lexemes_results (here : Position) (segments : List Segment) :
    (lexemes (results here segments)).map Located.value = segments.filterMap lexeme? := by
  induction segments generalizing here with
  | nil => rfl
  | cons segment segments ih =>
    cases segment <;> simp [results, result?, lexeme?, lexemes] at ih ⊢ <;> exact ih _

theorem map_value_errors_results (here : Position) (segments : List Segment) :
    (errors (results here segments)).map Located.value = segments.filterMap fault? := by
  induction segments generalizing here with
  | nil => rfl
  | cons segment segments ih =>
    cases segment <;> simp [results, result?, fault?, errors] at ih ⊢ <;> exact ih _

end Segment

namespace Lexer

/-- A segment that is read as nothing is passed over. -/
theorem scan_gap {segment : Segment} {rest} (hproper : segment.Proper rest) {here}
    (hnone : segment.result? here = none) (start : Position) (items : List Item) :
    scan start here .blank (itemsAt here segment.text ++ items) =
      scan here (here.past segment.text) .blank items := by
  cases segment with
  | blank c =>
    have hblank : Text.isBlank c = true := hproper
    simp [text, scan, hblank]
  | comment remark => exact scan_remark hproper start here items
  | lexeme spelling found => cases hnone
  | error spelling fault => cases hnone

variable {rest : List Char} {tail : List Item} (htail : Inert tail)
include htail

theorem scan_spells {text found} (h : Spells text found) (hend : found.EndsBefore text rest)
    (start here : Position) :
    scan start here .blank (itemsAt here (text ++ rest) ++ tail) =
      (some (.ok ⟨⟨here, here.past text⟩, found⟩),
        ⟨here, here.past text, itemsAt (here.past text) rest ++ tail⟩) := by
  obtain ⟨c, chars, rfl⟩ := exists_cons_of_ne_nil h.ne_nil
  cases id h with
  | keyword hword | word hword =>
    obtain ⟨hfirst, -⟩ := id hword
    rw [cons_append, scan_endsGap (endsGap_of_beginsWord hfirst),
      lexeme_word htail hword hend, ← h.eq_wordLexeme hword]
  | literal hnumber hcheck =>
    rw [cons_append, scan_endsGap hnumber.endsGap.1, lexeme_number htail hnumber hend,
      numeral, hcheck]
  | mark mark => exact scan_mark htail hend start here

/-- What is reported ends before the tail, if there is any.  A comment does
so only where it ends. -/
theorem scan_faulty {text fault} (h : Faulty rest text fault) (hrest : rest = [] → tail = [])
    (start here : Position) :
    scan start here .blank (itemsAt here (text ++ rest) ++ tail) =
      (some (.error ⟨.single here, fault⟩), ⟨here, here.past text,
        itemsAt (here.past text) rest ++ tail⟩) := by
  cases h with
  | stray h => exact scan_stray h start here
  | slash h =>
    cases rest with
    | nil =>
      obtain rfl := hrest rfl
      simp [scan, isBlank_eq_false]
    | cons next more => simp [scan, isBlank_eq_false, h next rfl]
  | @openComment body hend h =>
    obtain rfl := hrest hend
    subst hend
    obtain ⟨gap, hgap, hscan⟩ := scan_block_open (.inl rfl) h here (here.past ['/', '*']) []
    refine Eq.trans ?_ (((scan_opening start here _).trans hscan).trans ?_)
    · simp
    · rcases hgap with rfl | rfl <;> rfl
  | badLiteral hnumber hcheck hend | overflow hnumber hcheck hend =>
    obtain ⟨c, chars, rfl⟩ := exists_cons_of_ne_nil hnumber.ne_nil
    rw [cons_append, scan_endsGap hnumber.endsGap.1, lexeme_number htail hnumber hend,
      numeral, hcheck]

/-- A segment that is read as something is answered with it, and the lexer
stops right after it. -/
theorem scan_answer {segment : Segment} (hproper : segment.Proper rest)
    (hrest : rest = [] → tail = []) {here result}
    (hresult : segment.result? here = some result) (start : Position) :
    scan start here .blank (itemsAt here (segment.text ++ rest) ++ tail) =
      (some result, ⟨here, here.past segment.text,
        itemsAt (here.past segment.text) rest ++ tail⟩) := by
  cases segment with
  | blank | comment => cases hresult
  | lexeme spelling found =>
    cases hresult
    exact scan_spells htail hproper.1 hproper.2 start here
  | error spelling fault =>
    cases hresult
    exact scan_faulty htail hproper hrest start here

/-! ### All segments -/

omit htail in
/-- What a lexer reads depends only on its next call. -/
theorem results_congr {lexer other : Lexer} (h : lexer.next = other.next) :
    lexer.results = other.results := by
  rcases hnext : lexer.next with ⟨_ | result, after⟩
  · rw [results_of_next_eq_none hnext, results_of_next_eq_none (h.symm.trans hnext)]
  · rw [results_of_next hnext, results_of_next (h.symm.trans hnext)]

/-- **Segments are read as what they are**, and then what follows them is
read.  If there is a tail, the last segment before it has to be complete. -/
theorem results_append {others : List Segment} (h : AllProper (segments ++ others))
    (hgap : others = [] → tail = [] ∨ EndsInGap segments) (start here : Position) :
    results ⟨start, here, itemsAt here ((segments ++ others).flatMap text) ++ tail⟩ =
      Segment.results here segments ++
        results ⟨origin start here segments, here.past (segments.flatMap text),
          itemsAt (here.past (segments.flatMap text)) (others.flatMap text) ++ tail⟩ := by
  induction segments generalizing start here with
  | nil => rfl
  | cons segment segments ih =>
    rw [cons_append] at h
    cases h with
    | cons hproper hrest =>
    have hlater := ih hrest fun hnone => (hgap hnone).imp_right EndsInGap.of_cons
    cases hresult : segment.result? here with
    | none =>
      have hnext : next ⟨start, here,
        itemsAt here ((segment :: segments ++ others).flatMap text) ++ tail⟩ =
          next ⟨here, here.past segment.text,
            itemsAt (here.past segment.text)
              ((segments ++ others).flatMap text) ++ tail⟩ := by
        rw [cons_append, flatMap_cons, itemsAt_append, append_assoc]
        exact scan_gap hproper hresult start _
      rw [results_congr hnext, hlater, Segment.results, hresult, flatMap_cons,
        Position.past_append]
      rfl
    | some result =>
      have hend : (segments ++ others).flatMap text = [] → tail = [] := by
        intro hnil
        obtain ⟨rfl, rfl⟩ := append_eq_nil_iff.mp (hrest.eq_nil hnil)
        refine (hgap rfl).resolve_right fun hgap => ?_
        cases hresult.symm.trans (hgap segment rfl here)
      have hnext : next ⟨start, here,
        itemsAt here ((segment :: segments ++ others).flatMap text) ++ tail⟩ =
          (some result, _) := scan_answer htail hproper hend hresult start
      rw [results_of_next hnext, hlater, Segment.results, hresult, flatMap_cons,
        Position.past_append]
      rfl

omit htail in
theorem results_nil (start here : Position) : results ⟨start, here, []⟩ = [] :=
  results_of_next_eq_none rfl

omit htail in
theorem results_of_allProper (h : AllProper segments) (start here : Position) :
    results ⟨start, here,
      itemsAt here (segments.flatMap Segment.text)⟩ = Segment.results here segments := by
  rw [← append_nil segments] at h
  have hall := results_append inert_nil h (fun _ => .inl rfl) start here
  rwa [flatMap_nil, itemsAt_nil, append_nil, append_nil, append_nil, results_nil,
    append_nil] at hall

end Lexer
end Xdr
