import Xdr.Compile
import Xdr.Proofs.Decl.FirstError
import Xdr.Proofs.Decl.Precedence
import Xdr.Proofs.Token.Unreadable

/-!
# The report on a failed parse

Whatever a source is rejected for, the place that is reported lies on one
line and is not empty, so a reader is shown that line and a row of carets
under the columns that are meant.

The places of lexical errors are those of single characters.  Most of them
are characters of the error itself; an unreadable line is reported where the
gap before it begins, so that the line above it is shown, and only if the
very first line is unreadable there is no text to show.  The place of a
syntax error is that of a lexeme, or the first position if there are no
lexemes at all.

## Main Statements

* `Source.place_of_error` — a lexical error is placed at a character before
  the first unreadable line, or at the first position
* `Source.hasLexeme_of_mem` — a lexeme is placed at its characters
* `Report.block_eq_layout` — the report on one fault
* `Report.reject_eq_layout` — the report on a source that could not be
  parsed
-/

namespace Xdr

open Lexer List Nat Position Segment Source

variable {name : String} {bytes : List UInt8} {symbols : Symbols} {source : Source}
    {p : Position} {error : Located LexError}

/-! ### Lines and columns -/

namespace Position

theorem column_pos_after (c : Char) : 1 ≤ (p.after c).column := by
  rw [after]
  split
  · exact Nat.le_refl 1
  · split
    · exact le_add_right 1 _
    · exact le_add_left 1 _

/-- Columns are counted from one. -/
theorem column_pos_past (h : 1 ≤ p.column) (chars : List Char) :
    1 ≤ (p.past chars).column := by
  induction chars generalizing p with
  | nil => exact h
  | cons c chars ih => exact ih (column_pos_after c)

/-- Where neither a newline nor a tab stands among characters, each takes
one column. -/
theorem past_plain {chars} (h : ∀ c ∈ chars, c ≠ '\n' ∧ c ≠ '\t') (p : Position) :
    p.past chars = ⟨p.line, p.column + chars.length⟩ := by
  induction chars generalizing p with
  | nil => rfl
  | cons c chars ih =>
    obtain ⟨⟨hnewline, htab⟩, hrest⟩ := forall_mem_cons.mp h
    rw [past_cons, after_eq_advance p hnewline htab, ih hrest, advance, length_cons,
      add_assoc, add_comm 1]

end Position

namespace Source

/-- Every position of a source has a column to its left, or is the first of
its line. -/
theorem column_pos_of_mem_items {lines line c next}
    (h : .char c next ∈ itemsFrom line lines) : 1 ≤ next.column := by
  have hline : ∀ (chars : List Char) (here : Position), .char c next ∈ lineItems here chars →
    1 ≤ next.column := by
    intro chars
    induction chars with
    | nil =>
      intro here hmem
      cases mem_singleton.mp hmem
      exact le_refl 1
    | cons d chars ih =>
      intro here hmem
      rcases mem_cons.mp hmem with heq | hmem
      · cases heq
        exact column_pos_after _
      · exact ih _ hmem
  induction lines generalizing line with
  | nil => cases h
  | cons first lines ih =>
    cases first with
    | none => exact ih ((mem_cons.mp h).resolve_left (by simp))
    | some text =>
      rcases mem_append.mp h with h | h
      · exact hline _ _ h
      · exact ih h

/-- A character stands on one of the lines. -/
theorem line_of_among (h : (ofBytes name bytes).Readable)
    (hp : first.Among (ofBytes name bytes).characters p) :
    1 ≤ p.line ∧ p.line ≤ (ofBytes name bytes).lines.length := by
  obtain ⟨front, c, back, hchars, rfl⟩ := hp
  have hend : EndsLine (c :: back) := EndsLine.of_append (hchars ▸ endsLine_characters _)
  obtain ⟨body, rest, hline, -⟩ := hend.exists_line (cons_ne_nil _ _)
  have hcount := count_newline_characters h
  rw [hchars, hline, count_append, count_append, count_cons_self] at hcount
  have hfirst : first.line = 1 := rfl
  rw [line_past_count]
  omega

/-! ### The lines that are shown -/

/-- The text of a line, or the empty text if there is no such line or it
cannot be read. -/
def lineText (source : Source) (line : Nat) : String :=
  source.lines[line - 1]?.join.getD ""

/-- What has been read of a source are the lines of some first bytes, and an
unreadable line follows them if any line does. -/
theorem exists_reached (name : String) (bytes : List UInt8) :
    ∃ front : List UInt8, (ofBytes name bytes).reached = ofBytes name front ∧
    (ofBytes name front).Readable ∧ (bytes = front ∨
        ∃ later,
        (ofBytes name bytes).lines = (ofBytes name front).lines ++ none :: later) := by
  by_cases h : (ofBytes name bytes).Readable
  · refine ⟨bytes, ?_, h, .inl rfl⟩
    rw [reached, takeWhile_eq_self_iff.mpr h]
  · obtain ⟨front, later, -, hreadable, hlines⟩ := exists_lines_before name h
    refine ⟨front, ?_, hreadable, .inr ⟨later, hlines⟩⟩
    rw [reached, hlines, takeWhile_append_of_pos hreadable, takeWhile_cons_of_neg (by simp),
      append_nil]
    rfl

/-- Where a line is among those read, or the next, its excerpt is its text. -/
theorem excerpt_reached {line} (hpos : 1 ≤ line)
    (hle : line ≤ (ofBytes name bytes).reached.lines.length + 1) :
    (ofBytes name bytes).reached.excerpt line = (ofBytes name bytes).lineText line := by
  obtain ⟨front, hreached, hreadable, hlines⟩ := exists_reached name bytes
  rw [hreached] at hle ⊢
  have hread := hreadable.lines_eq
  rw [excerpt, if_neg (ne_of_gt hpos), lineText]
  rcases hlines with rfl | ⟨later, hlines⟩
  · rw [hread, getElem?_map]
    cases (ofBytes name bytes).readable[line - 1]? <;> rfl
  · rw [hlines, getElem?_append]
    split
    · rw [hread, getElem?_map]
      cases (ofBytes name front).readable[line - 1]? <;> rfl
    · next hlast =>
      have hend : line - 1 - (ofBytes name front).lines.length = 0 := by omega
      have hnone : (ofBytes name front).readable[line - 1]? = none := by
        rw [getElem?_eq_none_iff]
        rw [hread, length_map] at hlast
        omega
      rw [hnone, hend]
      rfl

/-! ### The places that are reported -/

end Source

/-- A result is that of a segment. -/
theorem Segment.AllProper.exists_of_mem_results {segments} (h : AllProper segments)
    {here result} (hmem : result ∈ results here segments) :
    ∃ front segment back,
    segments = front ++ segment :: back ∧ segment.Proper (back.flatMap text) ∧
      segment.result? (here.past (front.flatMap text)) = some result := by
  induction h generalizing here with
  | nil => cases hmem
  | @cons segment segments hproper _ ih =>
    rcases mem_append.mp hmem with hfirst | hlater
    · exact ⟨[], segment, segments, rfl, hproper, Option.mem_toList.mp hfirst⟩
    · obtain ⟨front, found, back, rfl, hfound, hresult⟩ := ih hlater
      refine ⟨segment :: front, found, back, rfl, hfound, ?_⟩
      rw [flatMap_cons, past_append]
      exact hresult

namespace Source

variable {name : String} {bytes : List UInt8}

/-- A result of a readable source is that of a segment of its characters. -/
theorem exists_segment_of_mem_results (h : (ofBytes name bytes).Readable) {result}
    (hmem : result ∈ (ofSource (ofBytes name bytes)).results) :
    ∃ (before : List Char) (segment : Segment) (after : List Char),
      (ofBytes name bytes).characters = before ++ segment.text ++ after ∧
      segment.Proper after ∧ segment.result? (first.past before) = some result := by
  obtain ⟨segments, hchars, hproper⟩ :=
    exists_allProper (endsLine_characters (ofBytes name bytes))
  rw [results_of_segments h hchars hproper] at hmem
  obtain ⟨front, segment, back, rfl, hsegment, hresult⟩ := hproper.exists_of_mem_results hmem
  refine ⟨front.flatMap text, segment, back.flatMap text, ?_, hsegment, hresult⟩
  rw [hchars, flatMap_append, flatMap_cons, append_assoc]

/-- The places of errors: the characters that have been read, and the first
position. -/
def ErrorPlace (source : Source) (place : Position) : Prop :=
  place = .first ∨ first.Among source.reached.characters place

/-- In a readable source an error is placed at its first character. -/
theorem among_of_error (h : (ofBytes name bytes).Readable)
    (hmem : .error error ∈ (ofSource (ofBytes name bytes)).results) :
    ∃ place,
    error.span = .single place ∧ first.Among (ofBytes name bytes).characters place := by
  obtain ⟨before, segment, after, hchars, hproper, hresult⟩ :=
    exists_segment_of_mem_results h hmem
  cases segment with
  | blank | comment | lexeme => cases hresult
  | error text fault =>
    cases hresult
    obtain ⟨c, more, rfl⟩ := exists_cons_of_ne_nil hproper.text_ne_nil
    refine ⟨_, rfl, before, c, more ++ after, ?_, rfl⟩
    rw [hchars]
    simp [Segment.text]

/-- **The places of lexical errors.**  An error is placed at a character
before the first unreadable line, or at the first position. -/
theorem place_of_error (hmem : .error error ∈ (ofSource (ofBytes name bytes)).results) :
    ∃ place, error.span = .single place ∧ (ofBytes name bytes).ErrorPlace place := by
  obtain ⟨front, hreached, hreadable, rfl | ⟨later, hlines⟩⟩ := exists_reached name bytes
  · obtain ⟨place, hspan, hplace⟩ := among_of_error hreadable hmem
    simp only [ErrorPlace, hreached]
    exact ⟨place, hspan, .inr hplace⟩
  · -- The errors are those of the lines before, and that of the unreadable line itself.
    obtain ⟨results, last, hlast, -, hfull, halone⟩ := results_before_unreadable hreadable
    simp only [ErrorPlace, hreached]
    rw [hfull bytes later hlines] at hmem
    rcases mem_append.mp hmem with hbefore | hunreadable
    · have hfront : .error error ∈ (ofSource (ofBytes name front)).results := by
        rcases halone with ⟨halone, -⟩ | halone <;> rw [halone]
        · exact hbefore
        · exact mem_append_left _ hbefore
      obtain ⟨place, hspan, hplace⟩ := among_of_error hreadable hfront
      exact ⟨place, hspan, .inr hplace⟩
    · cases mem_singleton.mp hunreadable
      exact ⟨last, rfl, hlast⟩

/-- A lexeme with its place: its characters stand there, on one line, and
take a column each. -/
def HasLexeme (source : Source) (lexeme : Located Lexeme) : Prop :=
  ∃ before text after, source.characters = before ++ text ++ after ∧
    Spells text lexeme.value ∧ lexeme.span.start = first.past before ∧
    lexeme.span.stop = ⟨lexeme.span.start.line, lexeme.span.start.column + text.length⟩

/-- **The places of lexemes.** -/
theorem hasLexeme_of_mem (h : (ofBytes name bytes).Readable) {lexeme : Located Lexeme}
    (hmem : lexeme ∈ lexemes (ofSource (ofBytes name bytes)).results) :
    (ofBytes name bytes).HasLexeme lexeme := by
  have hresult : .ok lexeme ∈ (ofSource (ofBytes name bytes)).results := by
    obtain ⟨result, hmem, hresult⟩ := mem_filterMap.mp hmem
    cases result with
    | ok found =>
      cases hresult
      exact hmem
    | error => cases hresult
  obtain ⟨before, segment, after, hchars, hproper, hresult⟩ :=
    exists_segment_of_mem_results h hresult
  cases segment with
  | blank | comment | error => cases hresult
  | lexeme text found =>
    cases hresult
    exact ⟨before, text, after, hchars, hproper.1, rfl, past_plain hproper.1.plain _⟩

/-- A lexeme stands at one of the characters. -/
theorem HasLexeme.among {lexeme} (h : source.HasLexeme lexeme) :
    first.Among source.characters lexeme.span.start := by
  obtain ⟨before, text, after, hchars, hspells, hstart, -⟩ := h
  obtain ⟨c, more, rfl⟩ := exists_cons_of_ne_nil hspells.ne_nil
  exact ⟨before, c, more ++ after, by simp [hchars], hstart⟩

end Source

/-! ### Places to show -/

/-- A place on a single line, with at least one column.  It is a line that
can be read, if there is such a line at all, unless it is the first. -/
structure Span.Shown (source : Source) (span : Span) : Prop where
  single_line : span.stop.line = span.start.line
  line_pos : 1 ≤ span.start.line
  column_pos : 1 ≤ span.start.column
  nonempty : span.start.column < span.stop.column
  decoded : source.lines[span.start.line - 1]? = some none → span.start.line = 1
  excerpt : source.reached.excerpt span.start.line = source.lineText span.start.line

theorem Source.ErrorPlace.shown {name bytes} {span : Span}
    (h : (ofBytes name bytes).ErrorPlace span.start)
    (hline : span.stop.line = span.start.line)
    (hcolumn : span.start.column < span.stop.column) : span.Shown (ofBytes name bytes) := by
  obtain ⟨front, hreached, hreadable, hlines⟩ := exists_reached name bytes
  rcases h with hfirst | hplace
  · have hone : span.start.line = 1 := by rw [hfirst]; rfl
    have hexcerpt := @excerpt_reached name bytes span.start.line (by rw [hone]) (by omega)
    exact ⟨hline, by rw [hone], by rw [hfirst]; exact le_refl 1, hcolumn,
      fun _ => hone, hexcerpt⟩
  · rw [hreached] at hplace
    obtain ⟨hpos, hle⟩ := line_of_among hreadable hplace
    have hexcerpt :=
      @excerpt_reached name bytes span.start.line hpos (by rw [hreached]; omega)
    refine ⟨hline, hpos, ?_, hcolumn, fun hnone => ?_, hexcerpt⟩
    · obtain ⟨before, -, -, -, hstart⟩ := hplace
      rw [hstart]
      exact column_pos_past (le_refl 1) before
    · -- The line is one of those that have been read.
      have hsame : (ofBytes name bytes).lines[span.start.line - 1]? =
          (ofBytes name front).lines[span.start.line - 1]? := by
        rcases hlines with rfl | ⟨later, hlines⟩
        · rfl
        · rw [hlines, getElem?_append_left (by omega)]
      rw [hsame] at hnone
      cases hreadable none (mem_of_getElem? hnone)

/-! ### The report -/

namespace Report

/-- How a fault on one line is shown: what it is, where it is, the line with
its number, and carets under the columns from the first to the last that is
meant. -/
def layout (kind : String) (source : Source) (fault : Fault) : String :=
  let number := toString fault.span.start.line
  let margin := spaces number.length
  kind ++ ": " ++ fault.value ++ "\n" ++
    " --> " ++ fault.span.text source.name ++ "\n" ++
    margin ++ " |\n" ++
    (number ++ " | " ++ source.lineText fault.span.start.line ++ "\n") ++
    margin ++ " | " ++ spaces (fault.span.start.column - 1) ++
      String.ofList (replicate (fault.span.stop.column - fault.span.start.column) '^') ++
      "\n\n"

theorem caretColumns_eq {span : Span} (hpos : 1 ≤ span.start.column)
    (h : span.start.column < span.stop.column) :
    caretColumns span = (span.start.column, span.stop.column - span.start.column) := by
  rw [caretColumns, Prod.mk.injEq]
  omega

theorem excerptLines_eq {span : Span} (h : span.stop.line = span.start.line) :
    excerptLines source (toString span.stop.line).length span =
      toString span.start.line ++ " | " ++ source.excerpt span.start.line ++ "\n" := by
  have hone : span.start.line + 1 - span.start.line = 1 := by omega
  have hnone : ∀ text : String, spaces 0 ++ text = text := fun text => String.empty_append
  have hjoin : ∀ text : String, String.join [text] = text := fun text => String.empty_append
  simp only [excerptLines, h, hone, range_one, map_singleton, hjoin, Nat.add_zero, padded,
    Nat.sub_self, hnone]

/-- **The report on one fault** whose place can be shown. -/
theorem block_eq_layout (kind : String) {fault : Fault} (h : fault.span.Shown source) :
    block kind source.reached fault = layout kind source fault := by
  rw [block, caretColumns_eq h.column_pos h.nonempty, excerptLines_eq h.single_line,
    h.excerpt, h.single_line]
  rfl

/-- The errors of a source that is rejected for them are results of its
lexer. -/
theorem mem_results_of_lexical {errors}
    (h : Decl.parse symbols source = .error (.lexical errors)) :
    errors ≠ [] ∧ ∀ error ∈ errors, .error error ∈ (ofSource source).results := by
  rw [Decl.parse_eq_report, Decl.report_eq_lexical] at h
  obtain ⟨rfl, hne⟩ := h
  refine ⟨hne, fun error herror => ?_⟩
  obtain ⟨result, hmem, hresult⟩ := mem_filterMap.mp herror
  cases result with
  | ok => cases hresult
  | error found =>
    cases hresult
    exact hmem

/-- **The place of a syntax error** is that of a lexeme, or the first
position if there are no lexemes. -/
theorem place_of_syntactic {error : Located SyntaxError}
    (h : Decl.parse symbols (.ofBytes name bytes) = .error (.syntactic error)) :
    (ofBytes name bytes).Readable ∧
      ((∃ lexeme, (ofBytes name bytes).HasLexeme lexeme ∧ error.span = lexeme.span) ∨
        lexemes (ofSource (.ofBytes name bytes)).results = [] ∧
        error.span = .single .first) := by
  have hnone := Decl.eq_nil_of_report_eq_syntactic ((Decl.parse_eq_report _ _).symm.trans h)
  have hreadable := readable_of_errors_eq_nil hnone
  refine ⟨hreadable, ?_⟩
  obtain ⟨found, heq, hwrong⟩ := Decl.parse_eq_error_of_errors_eq_nil hnone h
  cases heq
  rcases Decl.ofLexemes_eq_error hwrong with ⟨rfl, -⟩ |
    ⟨front, lexeme, back, hsplit, hspan, -⟩
  · -- The source ends too early, which is reported at its last lexeme.
    rw [Parser.place]
    cases hlast : (lexemes (ofSource (.ofBytes name bytes)).results).getLast? with
    | none => exact .inr ⟨getLast?_eq_none_iff.mp hlast, rfl⟩
    | some lexeme =>
      exact .inl ⟨lexeme, hasLexeme_of_mem hreadable (mem_of_getLast? hlast), rfl⟩
  · refine .inl ⟨lexeme, hasLexeme_of_mem hreadable ?_, hspan⟩
    rw [hsplit]
    exact mem_append_right _ mem_cons_self

theorem shown_of_lexical {errors}
    (h : Decl.parse symbols (.ofBytes name bytes) = .error (.lexical errors))
    (herror : error ∈ errors) :
    error.span.Shown (.ofBytes name bytes) ∧ error.span.stop.column =
      error.span.start.column + 1 := by
  obtain ⟨place, hspan, hplace⟩ := place_of_error ((mem_results_of_lexical h).2 error herror)
  rw [hspan]
  exact ⟨ErrorPlace.shown hplace rfl (lt_succ_self _), rfl⟩

theorem shown_of_syntactic {error}
    (h : Decl.parse symbols (.ofBytes name bytes) = .error (.syntactic error)) :
    error.span.Shown (.ofBytes name bytes) := by
  obtain ⟨hreadable, ⟨lexeme, hlexeme, hspan⟩ | ⟨-, hspan⟩⟩ := place_of_syntactic h
  · rw [hspan]
    have hreached : (ofBytes name bytes).reached = .ofBytes name bytes := by
      rw [reached, takeWhile_eq_self_iff.mpr hreadable]
    have hplace := hlexeme.among
    obtain ⟨before, text, after, -, hspells, -, hstop⟩ := hlexeme
    have hlength := length_pos_of_ne_nil hspells.ne_nil
    refine ErrorPlace.shown (.inr (hreached.symm ▸ hplace)) ?_ ?_ <;> rw [hstop]
    exact Nat.lt_add_of_pos_right hlength
  · rw [hspan]
    exact ErrorPlace.shown (.inl rfl) rfl (lt_succ_self _)

/-- **Diagnostics show the right place.**  If a source cannot be parsed, it
has faults, and the report shows one after the other and tells their number.
Each lies on one line and takes at least one column there.  A lexical error
takes one column.  A syntax error takes as many as the lexeme that it is
placed at has characters, or one if the source has no lexemes.  Positions
before the first column, which could not be subtracted from, are not met. -/
theorem reject_eq_layout (symbols : Symbols) (name : String) (bytes : List UInt8)
    (failure : ParseFailure) (h : Decl.parse symbols (.ofBytes name bytes) = .error failure) :
    failure.faults ≠ [] ∧
    (∀ stage, Compile.reject stage (.ofBytes name bytes) failure.faults =
      .rejected stage
        (String.join (failure.faults.map (layout stage.faultKind (.ofBytes name bytes))) ++
          summary failure.faults.length)) ∧
    (∀ fault ∈ failure.faults, fault.span.Shown (.ofBytes name bytes)) ∧
    ((∃ errors, failure = .lexical errors ∧
        ∀ error ∈ errors, error.span.stop.column = error.span.start.column + 1) ∨
      ∃ error, failure = .syntactic error ∧
        ((∃ lexeme, (Source.ofBytes name bytes).HasLexeme lexeme ∧ error.span = lexeme.span) ∨
          Lexer.lexemes (Lexer.ofSource (.ofBytes name bytes)).results = [] ∧
          error.span = .single .first)) ∧
    ∀ c next, .char c next ∈ (Source.ofBytes name bytes).items → 1 ≤ next.column := by
  have hfaults : failure.faults ≠ [] ∧ ∀ fault ∈ failure.faults,
    fault.span.Shown (.ofBytes name bytes) := by
    cases failure with
    | lexical errors =>
      refine ⟨fun hnil => (mem_results_of_lexical h).1 (map_eq_nil_iff.mp hnil),
        fun fault hfault => ?_⟩
      obtain ⟨error, herror, rfl⟩ := mem_map.mp hfault
      exact (shown_of_lexical h herror).1
    | syntactic error =>
      refine ⟨cons_ne_nil _ _, fun fault hfault => ?_⟩
      cases mem_singleton.mp hfault
      exact shown_of_syntactic h
  refine ⟨hfaults.1, fun stage => ?_, hfaults.2, ?_, fun c next hitem => ?_⟩
  · have hblocks := map_congr_left fun fault hfault =>
      block_eq_layout stage.faultKind (hfaults.2 fault hfault)
    rw [Compile.reject, text, hblocks, if_neg (by simpa using hfaults.1)]
  · cases failure with
    | lexical errors =>
      exact .inl ⟨errors, rfl, fun error herror => (shown_of_lexical h herror).2⟩
    | syntactic error => exact .inr ⟨error, rfl, (place_of_syntactic h).2⟩
  · exact Source.column_pos_of_mem_items hitem

/-- A word, a stray character behind a tab and before an open comment, and a
line that is not UTF-8. -/
def tabbed : List UInt8 :=
  [120, 10, 9, 36, 32, 47, 42, 10, 255, 10]

/-- The line that cannot be read is reported where the comment before it
begins. -/
theorem reject_eq_layout_tabbed :
    Decl.parse .initial (.ofBytes "tabbed.x" tabbed) = .error (.lexical
      [⟨.single ⟨2, 9⟩, .badChar '$'⟩, ⟨.single ⟨2, 11⟩, .unreadable⟩]) ∧
    Compile.reject .lexical (.ofBytes "tabbed.x" tabbed)
        [⟨.single ⟨2, 9⟩, (LexError.badChar '$').message⟩,
          ⟨.single ⟨2, 11⟩, LexError.unreadable.message⟩] =
      .rejected .lexical
        ("lexical error: Bad character '$' in input stream\n --> tabbed.x:2:9\n" ++
        "  |\n2 | \t$ /*\n  |         ^\n\nlexical error: I/O error\n --> tabbed.x:2:11\n" ++
          "  |\n2 | \t$ /*\n  |           ^\n\nCompilation failed with 2 errors\n") ∧
    (Span.single ⟨2, 11⟩).Shown (.ofBytes "tabbed.x" tabbed) := by
  have hfails : Decl.parse .initial (.ofBytes "tabbed.x" tabbed) = .error (.lexical
      [⟨.single ⟨2, 9⟩, .badChar '$'⟩, ⟨.single ⟨2, 11⟩, .unreadable⟩]) := by
    rw [Decl.parse_eq_report, Decl.report_eq_lexical]
    exact ⟨by decide +kernel, cons_ne_nil _ _⟩
  obtain ⟨-, hreport, hshown, -⟩ := reject_eq_layout _ _ _ _ hfails
  refine ⟨hfails, (hreport .lexical).trans ?_, hshown ⟨_, LexError.unreadable.message⟩ ?_⟩
  · refine congrArg (Compile.Failure.rejected .lexical) ?_
    decide +kernel
  · exact mem_cons_of_mem _ mem_cons_self

end Report
end Xdr
