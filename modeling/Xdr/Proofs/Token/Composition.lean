import Xdr.Proofs.Source.Lines
import Xdr.Proofs.Token.Segmentation

/-!
# What a source consists of

A source without lexical errors is a text of blanks, comments and the
spellings of lexemes, and of which lexemes is determined by the text.

At the end of a line nothing is half read but a block comment: the newline
completes a token and a remark, and it is no part of either.  So what
follows whole lines has no say in what they are read as, and an unreadable
line that follows them costs no token.

A name that a source spells is a word, and no keyword in its usual spelling:
an underscore that is appended to a reserved word changes neither.  A
literal begins with a digit or a sign, so it is no word.

## Main Statements

* `Segment.AllProper.endsInGap` — whole lines end in a gap, unless a comment
  is open
* `Segment.AllProper.inline` — what is reported of whole lines
* `Source.results_before_unreadable` — a line that cannot be read is
  reported, and costs no token
* `Source.lexemes_of_consistsOf` — the lexer reads what a source consists of
* `Source.errors_eq_nil_iff` — without lexical errors a source consists of
  lexemes, and of one sequence of them only
* `Source.ConsistsOf.exists_spells` — every lexeme of a source is spelled by
  a text
* `IsName.word`, `IsName.ne_keyword`, `IsNumeral.not_word` — names and
  literals apart
-/

namespace Xdr

open Lexer List Position Segment Source

variable {segments : List Segment}

/-- The position of one of some characters, the first of which stands at
`here`. -/
def Position.Among (here : Position) (chars : List Char) (p : Position) : Prop :=
  ∃ front c back, chars = front ++ c :: back ∧ p = here.past front

namespace Segment

/-- A segment with a newline at its end is a gap, unless it is a comment
that does not end. -/
theorem Proper.result?_eq_none {segment : Segment} {after} (h : segment.Proper after)
    (hlast : segment.text.getLast? = some '\n')
    (hopen : ∀ remark, segment ≠ .error remark .openComment) (here : Position) :
    segment.result? here = none := by
  have hmem : '\n' ∈ segment.text := mem_of_getLast? hlast
  cases segment with
  | blank | comment => rfl
  | lexeme spelling found => exact absurd rfl (h.1.plain '\n' hmem).1
  | error spelling fault =>
    cases h with
    | stray h =>
      obtain rfl := mem_singleton.mp hmem
      exact absurd h.blank (by decide)
    | slash => exact absurd (mem_singleton.mp hmem) (by decide)
    | openComment => exact absurd rfl (hopen _)
    | badLiteral hnumber | overflow hnumber => exact absurd rfl (hnumber.plain '\n' hmem).1

theorem AllProper.last {segments last} (h : AllProper (segments ++ [last])) :
    last.Proper [] := by
  cases h.of_append with
  | cons hproper => exact hproper

/-- The last segment of whole lines ends with a newline. -/
theorem AllProper.getLast?_text {last} (h : AllProper (segments ++ [last]))
    (hline : EndsLine ((segments ++ [last]).flatMap text)) :
    last.text.getLast? = some '\n' := by
  have hlast := getLast?_eq_some_getLast h.last.text_ne_nil
  rw [flatMap_append, flatMap_singleton] at hline
  rw [hlast, hline.of_append _ hlast]

/-- **Whole lines end in a gap**, unless a comment is open at their end. -/
theorem AllProper.endsInGap (h : AllProper segments)
    (hline : EndsLine (segments.flatMap text))
    (hopen : ∀ remark, segments.getLast? ≠ some (.error remark .openComment)) :
    EndsInGap segments := by
  intro last hlast here
  obtain ⟨front, rfl⟩ := getLast?_eq_some_iff.mp hlast
  exact h.last.result?_eq_none (h.getLast?_text hline) (fun remark heq =>
    hopen remark (heq ▸ hlast)) here

/-- What is reported of segments is no unreadable line, and no open comment
unless it is the last of them. -/
theorem AllProper.inline {others} (h : AllProper (segments ++ others))
    (hgap : others = [] → EndsInGap segments) {here error}
    (hmem : .error error ∈ results here segments) :
    error.value ≠ .unreadable ∧ error.value ≠ .openComment := by
  induction segments generalizing here with
  | nil => cases hmem
  | cons segment segments ih =>
    rw [cons_append] at h
    cases h with
    | cons hproper hrest =>
    rcases mem_append.mp hmem with hfirst | hlater
    · cases segment with
      | blank | comment | lexeme => simp [result?] at hfirst
      | error spelling fault =>
        simp only [result?, Option.toList_some, mem_singleton] at hfirst
        cases hfirst
        cases hproper with
        | openComment hend =>
          obtain ⟨rfl, rfl⟩ := append_eq_nil_iff.mp (hrest.eq_nil hend)
          cases hgap rfl _ rfl here
        | stray | slash | badLiteral | overflow => simp
    · exact ih hrest (fun hnone => (hgap hnone).of_cons) hlater

/-- A gap that ends with a newline has no other. -/
theorem Proper.count_newline {segment : Segment} {after here} (h : segment.Proper after)
    (hnone : segment.result? here = none) (hlast : segment.text.getLast? = some '\n') :
    segment.text.count '\n' = 1 := by
  cases segment with
  | lexeme | error => cases hnone
  | blank c =>
    cases hlast
    rfl
  | comment remark =>
    cases h with
    | line hbody => simp [text, count_append, count_eq_zero.mpr hbody]
    | directive hmark hbody =>
      rcases hmark with rfl | rfl <;> simp [text, count_append, count_eq_zero.mpr hbody]
    | @block body hbody =>
      have hend : ('/' :: '*' :: (body ++ ['*'] ++ ['/'])).getLast? = some '/' := by
        rw [← cons_append, ← cons_append, getLast?_concat]
      rw [append_assoc] at hend
      cases hlast.symm.trans hend

end Segment

namespace Lexer

theorem results_unreadable (start here : Position) (later : List Item) :
    results ⟨start, here, .unreadable :: later⟩ = [.error ⟨.single start, .unreadable⟩] := by
  rw [results_of_next rfl, results_nil]

/-- Segments that end in a gap are read as what they are.  Then the
unreadable line is reported where the gap begins, and nothing more is read. -/
theorem results_gap_unreadable (h : Segment.AllProper segments)
    (hgap : Segment.EndsInGap segments) (start here : Position) (later : List Item) :
    results ⟨start, here,
      itemsAt here (segments.flatMap Segment.text) ++ .unreadable :: later⟩ =
      Segment.results here segments ++ [.error ⟨.single (Segment.origin start here segments),
        .unreadable⟩] := by
  rw [← append_nil segments] at h
  have hall := results_append (inert_unreadable later) h (fun _ => .inr hgap) start here
  rwa [append_nil, flatMap_nil, itemsAt_nil, nil_append, results_unreadable] at hall

/-- In place of a comment that is open an unreadable line is reported. -/
theorem results_open_unreadable {remark}
    (h : AllProper (segments ++ [.error remark .openComment])) (start here : Position)
    (later : List Item) :
    results ⟨start, here,
      itemsAt here ((segments ++ [error remark .openComment]).flatMap text) ++
        .unreadable :: later⟩ =
      Segment.results here segments ++
        [.error ⟨.single (here.past (segments.flatMap Segment.text)), .unreadable⟩] := by
  rw [results_append (inert_unreadable later) h (fun hnone => nomatch hnone),
    flatMap_singleton]
  congr 1
  have hlast : Faulty [] remark .openComment := h.last
  cases hlast with
  | @openComment body _ hopen =>
  generalize here.past (segments.flatMap text) = place
  obtain ⟨gap, hgap, hscan⟩ :=
    scan_block_open (.inl rfl) hopen place (place.past ['/', '*']) (.unreadable :: later)
  have hnext : next ⟨origin start here segments, place,
      itemsAt place ('/' :: '*' :: body) ++ .unreadable :: later⟩ =
        (some (.error ⟨.single place, .unreadable⟩), ⟨place, place, []⟩) := by
    refine ((scan_opening _ place _).trans hscan).trans ?_
    rcases hgap with rfl | rfl <;> rfl
  rw [Segment.text, results_of_next hnext, results_nil]

end Lexer

namespace Source

/-- The source is a text of segments, none of which is reported, and
`lexemes` are those that they spell. -/
def ConsistsOf (source : Source) (lexemes : List Lexeme) : Prop :=
  source.Readable ∧ ∃ segments : List Segment,
    source.characters = segments.flatMap text ∧ AllProper segments ∧
    segments.filterMap fault? = [] ∧ segments.filterMap lexeme? = lexemes

variable {name : String} {bytes : List UInt8} {lexemes : List Lexeme}

/-- Segments of a source are what it is read as. -/
theorem results_of_segments {segments : List Segment}
    (hreadable : (ofBytes name bytes).Readable)
    (hchars : (ofBytes name bytes).characters = segments.flatMap text)
    (hproper : AllProper segments) :
    (ofSource (ofBytes name bytes)).results = results .first segments := by
  rw [ofSource, items_eq_itemsAt hreadable, hchars]
  exact results_of_allProper hproper .first .first

/-- A segment alone is all that a source is read as. -/
theorem results_of_segment {text : String} {segment : Segment}
    (hproper : segment.Proper ['\n'])
    (htext : segment.text = text.toList)
    (hvisible : ∀ c ∈ text.toList, 33 ≤ c.toNat ∧ c.toNat ≤ 126) (name : String) :
    (ofSource (ofText name text)).results = results .first [segment, .blank '\n'] := by
  have hprintable : Text.Printable text.toList :=
    fun c hc => (hvisible c hc).imp_left Nat.le_of_succ_le
  have hne : text ≠ "" := by
    rintro rfl
    exact hproper.text_ne_nil htext
  obtain ⟨hreadable, hchars⟩ := characters_ofText_last hprintable name hne
  refine results_of_segments hreadable (hchars.trans ?_) (.cons hproper (.cons rfl .nil))
  rw [← htext]
  rfl

/-- **The lexer reads what a source consists of**, without an error. -/
theorem lexemes_of_consistsOf (h : (ofBytes name bytes).ConsistsOf lexemes) :
    errors (ofSource (ofBytes name bytes)).results = [] ∧
      (Lexer.lexemes (Lexer.ofSource (ofBytes name bytes)).results).map Located.value =
        lexemes := by
  obtain ⟨hreadable, segments, hchars, hproper, hfaults, hlexemes⟩ := h
  rw [results_of_segments hreadable hchars hproper]
  refine ⟨?_, (map_value_lexemes_results _ _).trans hlexemes⟩
  exact map_eq_nil_iff.mp ((map_value_errors_results .first segments).trans hfaults)

/-- Whatever segments a source is taken apart into, they tell what it
consists of. -/
theorem consistsOf_iff_of_segments {segments : List Segment}
    (hreadable : (ofBytes name bytes).Readable)
    (hchars : (ofBytes name bytes).characters = segments.flatMap text)
    (hproper : AllProper segments) :
    (ofBytes name bytes).ConsistsOf lexemes ↔
      segments.filterMap fault? = [] ∧ segments.filterMap lexeme? = lexemes := by
  constructor
  · intro h
    have hread := lexemes_of_consistsOf h
    rw [results_of_segments hreadable hchars hproper] at hread
    rw [← map_value_errors_results .first, hread.1, ← map_value_lexemes_results .first]
    exact ⟨rfl, hread.2⟩
  · rintro ⟨hfaults, hlexemes⟩
    exact ⟨hreadable, segments, hchars, hproper, hfaults, hlexemes⟩

/-- **An unreadable line costs no token.**  What stands before it is read as
if it were the whole source, up to a comment that is open there.  Then the
line is reported, and nothing more is read.  If no comment is open, it is
reported on the line before it, or on the first if there is none. -/
theorem results_before_unreadable {front : List UInt8} (h : (ofBytes name front).Readable) :
    ∃ (results : List Result) (place : Position),
      (place = .first ∨ first.Among (ofBytes name front).characters place) ∧
      (∀ error, .error error ∈ results →
        error.value ≠ .unreadable ∧ error.value ≠ .openComment) ∧
      (∀ (others : List UInt8) (later : List (Option String)),
        (ofBytes name others).lines = (ofBytes name front).lines ++ none :: later →
        (ofSource (ofBytes name others)).results =
          results ++ [.error ⟨.single place, .unreadable⟩]) ∧
      ((ofSource (ofBytes name front)).results = results ∧
          place.line = max 1 (ofBytes name front).lines.length ∨
        (ofSource (ofBytes name front)).results =
          results ++ [.error ⟨.single place, .openComment⟩]) := by
  obtain ⟨segments, hchars, hproper⟩ :=
    Segment.exists_allProper (endsLine_characters (ofBytes name front))
  have hline : EndsLine (segments.flatMap Segment.text) := hchars ▸ endsLine_characters _
  have hcount := count_newline_characters h
  have halone := results_of_segments h hchars hproper
  have hitems : ∀ (others : List UInt8) (later : List (Option String)),
      (ofBytes name others).lines = (ofBytes name front).lines ++ none :: later →
      ∃ items, ofSource (ofBytes name others) =
        ⟨.first, .first,
          itemsAt .first (segments.flatMap Segment.text) ++ .unreadable :: items⟩ := by
    intro others later hothers
    refine ⟨itemsFrom (1 + (ofBytes name front).lines.length + 1) later, ?_⟩
    rw [ofSource, items_of_lines h hothers, hchars]
  rw [halone]
  rw [hchars] at hcount ⊢
  rcases eq_nil_or_concat segments with rfl | ⟨before, last, rfl⟩
  · refine ⟨[], .first, .inl rfl, nofun, fun others later hothers => ?_, .inl ⟨rfl, ?_⟩⟩
    · obtain ⟨items, hsource⟩ := hitems others later hothers
      rw [hsource]
      exact results_unreadable .first .first items
    · rw [← hcount]
      rfl
  rw [concat_eq_append] at *
  obtain ⟨c, more, htext⟩ := exists_cons_of_ne_nil hproper.last.text_ne_nil
  have hplace : first.Among ((before ++ [last]).flatMap Segment.text)
      (first.past (before.flatMap Segment.text)) :=
    ⟨_, c, more, by rw [flatMap_append, flatMap_singleton, htext], rfl⟩
  by_cases hopen : ∃ remark, last = .error remark .openComment
  · obtain ⟨remark, rfl⟩ := hopen
    refine ⟨Segment.results .first before, _, .inr hplace, fun error => hproper.inline nofun,
      fun others later hothers => ?_, .inr ?_⟩
    · obtain ⟨items, hsource⟩ := hitems others later hothers
      rw [hsource, results_open_unreadable hproper]
    · rw [Segment.results_append]
      rfl
  · have hgap : Segment.EndsInGap (before ++ [last]) := by
      refine hproper.endsInGap hline fun remark hlast => hopen ⟨remark, ?_⟩
      simpa using hlast
    refine ⟨Segment.results .first (before ++ [last]), _, .inr hplace, fun error => ?_,
      fun others later hothers => ?_, .inl ⟨rfl, ?_⟩⟩
    · rw [← append_nil (before ++ [last])] at hproper
      exact hproper.inline fun _ => hgap
    · obtain ⟨items, hsource⟩ := hitems others later hothers
      rw [hsource, results_gap_unreadable hproper hgap, Segment.origin_concat]
    · -- The gap ends with the newline of the last line, and has no other.
      have hlast :=
        hproper.last.count_newline (hgap last (by simp) .first) (hproper.getLast?_text hline)
      rw [flatMap_append, flatMap_singleton, count_append, hlast] at hcount
      have hfirst : first.line = 1 := rfl
      rw [line_past_count]
      omega

theorem readable_of_errors_eq_nil (h : errors (ofSource (ofBytes name bytes)).results = []) :
    (ofBytes name bytes).Readable := by
  by_contra hbroken
  obtain ⟨front, later, -, hreadable, hlines⟩ := exists_lines_before name hbroken
  obtain ⟨results, place, -, -, hfull, -⟩ := results_before_unreadable hreadable
  rw [hfull bytes later hlines] at h
  simp [errors] at h

theorem consistsOf_lexemes (h : errors (ofSource (ofBytes name bytes)).results = []) :
    (ofBytes name bytes).ConsistsOf
      ((Lexer.lexemes (Lexer.ofSource (ofBytes name bytes)).results).map Located.value) := by
  have hreadable := readable_of_errors_eq_nil h
  obtain ⟨segments, hchars, hproper⟩ :=
    exists_allProper (endsLine_characters (ofBytes name bytes))
  rw [results_of_segments hreadable hchars hproper] at h ⊢
  refine ⟨hreadable, segments, hchars, hproper, ?_, (map_value_lexemes_results _ _).symm⟩
  rw [← map_value_errors_results .first, h, map_nil]

/-- **Without lexical errors a source consists of lexemes**, and of one
sequence of them only. -/
theorem errors_eq_nil_iff :
    errors (ofSource (ofBytes name bytes)).results = [] ↔
      ∃! lexemes, (ofBytes name bytes).ConsistsOf lexemes := by
  constructor
  · intro h
    refine ⟨_, consistsOf_lexemes h, fun others hothers => ?_⟩
    exact (lexemes_of_consistsOf hothers).2.symm
  · rintro ⟨lexemes, hlexemes, -⟩
    exact (lexemes_of_consistsOf hlexemes).1

end Source

/-! ### Names and literals -/

/-- A name that some text spells. -/
def IsName (name : String) : Prop :=
  ∃ text, Spells text (.word name)

/-- A literal that some text spells. -/
def IsNumeral (literal : String) : Prop :=
  ∃ text, Spells text (.literal literal)

theorem escapeWord_ne {word name} (h : word ≠ name) (hend : name.toList.getLast? ≠ some '_') :
    escapeWord word ≠ name := by
  rw [escapeWord]
  split
  · rintro rfl
    simp at hend
  · exact h

theorem Word.escape {text} (h : Word text) :
    Word (escapeWord (String.ofList text)).toList := by
  obtain ⟨hfirst, hrest⟩ := h
  rw [escapeWord]
  split
  · rw [String.toList_append, String.toList_ofList, cons_append]
    exact .mk hfirst (forall_mem_append.mpr ⟨hrest, forall_mem_singleton.mpr (by decide)⟩)
  · rw [String.toList_ofList]
    exact .mk hfirst hrest

theorem Keyword.map_toLower_spelling (keyword : Keyword) :
    keyword.spelling.toList.map Char.toLower = keyword.spelling.toList := by
  cases keyword <;> decide

theorem Keyword.getLast?_spelling (keyword : Keyword) :
    keyword.spelling.toList.getLast? ≠ some '_' := by
  cases keyword <;> decide

theorem Keyword.word_spelling (keyword : Keyword) : Word keyword.spelling.toList := by
  cases keyword <;> exact .mk (by decide) (all_eq_true.mp (by decide))

theorem IsName.word {name} (h : IsName name) : Word name.toList := by
  obtain ⟨text, hspells⟩ := h
  cases hspells with
  | word hword => exact hword.escape

/-- **A name is no keyword**, in whatever case its letters are. -/
theorem IsName.map_toLower_ne {name : String} (h : IsName name) (keyword : Keyword) :
    name.toList.map Char.toLower ≠ keyword.spelling.toList := by
  obtain ⟨text, hspells⟩ := h
  cases hspells with
  | word _ hother =>
    rw [escapeWord]
    split
    · intro hsame
      apply keyword.getLast?_spelling
      simp [← hsame]
    · rw [String.toList_ofList]
      exact hother keyword

theorem IsName.ne_keyword {name} (h : IsName name) (keyword : Keyword) :
    name ≠ keyword.spelling := by
  rintro rfl
  exact h.map_toLower_ne keyword keyword.map_toLower_spelling

/-- **A literal is no word.** -/
theorem IsNumeral.not_word {literal : String} (h : IsNumeral literal) :
    ¬ Word literal.toList := by
  obtain ⟨text, hspells⟩ := h
  cases hspells with
  | literal hnumber =>
    rw [String.toList_ofList]
    rintro ⟨hfirst, -⟩
    cases hnumber.endsGap.2.symm.trans hfirst

/-! ### The lexemes of a source -/

theorem Segment.AllProper.spells {segments : List Segment} (h : AllProper segments)
    {text : List Char}
    {found : Lexeme} (hmem : .lexeme text found ∈ segments) : Spells text found := by
  obtain ⟨front, back, rfl⟩ := append_of_mem hmem
  cases h.of_append with
  | cons hproper => exact hproper.1

theorem Source.ConsistsOf.exists_spells {source : Source} {lexemes}
    (h : source.ConsistsOf lexemes) : ∀ lexeme ∈ lexemes, ∃ text, Spells text lexeme := by
  obtain ⟨-, segments, -, hproper, -, rfl⟩ := h
  intro lexeme hlexeme
  obtain ⟨segment, hsegment, hfound⟩ := mem_filterMap.mp hlexeme
  cases segment with
  | blank | comment | error => cases hfound
  | lexeme text =>
    cases hfound
    exact ⟨text, hproper.spells hsegment⟩

end Xdr
