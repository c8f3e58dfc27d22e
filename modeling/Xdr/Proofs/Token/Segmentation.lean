import Xdr.Proofs.Token.Unambiguity

/-!
# What the lexer answers

The characters of a readable source are segments, since whatever they begin
with is a segment.  The lexer reads segments as what they are, so its calls
answer them in turn.

## Main Statements

* `Segment.exists_proper` — a text begins with a segment
* `Segment.exists_allProper` — a text consists of segments
* `Lexer.exists_segments_of_readable` — all calls: the segments make up the
  source and are answered in turn
-/

namespace Xdr

open Lexer List Segment Source

variable {chars : List Char}

/-- The first star and slash among characters. -/
theorem exists_close (h : ['*', '/'] <:+: chars) :
    ∃ body rest, chars = body ++ '*' :: '/' :: rest ∧ ¬ ['*', '/'] <:+: body ++ ['*'] := by
  induction chars with
  | nil => simp at h
  | cons c chars ih =>
    by_cases hhere : ['*', '/'] <+: c :: chars
    · obtain ⟨rest, heq⟩ := hhere
      refine ⟨[], rest, heq.symm, fun hopen => ?_⟩
      have hlength := hopen.length_le
      simp at hlength
    · obtain hstart | hlater := infix_cons_iff.mp h
      · exact absurd hstart hhere
      · obtain ⟨body, rest, rfl, hbody⟩ := ih hlater
        refine ⟨c :: body, rest, rfl, fun hopen => ?_⟩
        rcases infix_cons_iff.mp hopen with hstart | hlater
        · refine hhere (hstart.trans ⟨'/' :: rest, ?_⟩)
          simp
        · exact hbody hlater

namespace Segment

/-! ### The first segment -/

/-- A word is as long as it can be. -/
theorem exists_word {c} (h : beginsWord c = true) (chars : List Char) :
    ∃ (segment : Segment) (rest : List Char), c :: chars = segment.text ++ rest ∧
      segment.Proper rest := by
  have hword : Word (c :: chars.takeWhile continuesWord) :=
    .mk h fun d hd => mem_takeWhile_imp hd
  have hend : (wordLexeme (String.ofList (c :: chars.takeWhile continuesWord))).EndsBefore
      (c :: chars.takeWhile continuesWord) (chars.dropWhile continuesWord) := by
    rw [wordLexeme]
    split <;> exact fun next hnext => eq_false_of_mem_head?_dropWhile hnext
  refine ⟨.lexeme _ _, _, ?_, hword.spells, hend⟩
  rw [text, cons_append, takeWhile_append_dropWhile]

/-- A numeral that ends where it can has a value, or is reported. -/
theorem exists_number {spelling rest : List Char} (hnumber : Number spelling)
    (hend : ∀ next ∈ rest.head?, Numeral.continues spelling next = false) :
    ∃ segment : Segment, segment.text = spelling ∧ segment.Proper rest := by
  cases hcheck : Numeral.check spelling with
  | none => exact ⟨.lexeme spelling _, rfl, .literal hnumber hcheck, hend⟩
  | some fault =>
    cases fault with
    | malformed => exact ⟨.error spelling _, rfl, .badLiteral hnumber hcheck hend⟩
    | overflow => exact ⟨.error spelling _, rfl, .overflow hnumber hcheck hend⟩

/-- A digit begins a numeral, with the sign before it. -/
theorem exists_digit {sign} (hsign : sign ∈ [[], ['-'], ['+']]) {first : Char}
    (hfirst : first.isDigit = true) (chars : List Char) :
    ∃ (segment : Segment) (rest : List Char),
      sign ++ first :: chars = segment.text ++ rest ∧ segment.Proper rest := by
  have hdigit : Number (sign ++ [first]) := Numeral.number_decimal hsign hfirst nofun
  obtain ⟨more, rest, rfl, hnumber, hend⟩ := hdigit.exists_longest chars
  obtain ⟨segment, htext, hproper⟩ := exists_number hnumber hend
  exact ⟨segment, rest, by simp [htext], hproper⟩

/-- A sign begins a numeral before a digit, and it is a mark before anything
else. -/
theorem exists_sign {mark : Mark} (h : mark = .minus ∨ mark = .plus) (chars : List Char) :
    ∃ (segment : Segment) (rest : List Char), mark.char :: chars = segment.text ++ rest ∧
    segment.Proper rest := by
  by_cases hdigit : ∃ digit tail, chars = digit :: tail ∧ digit.isDigit = true
  · obtain ⟨digit, tail, rfl, hdigit⟩ := hdigit
    have hsign : [mark.char] ∈ [[], ['-'], ['+']] := by rcases h with rfl | rfl <;> decide
    exact exists_digit hsign hdigit tail
  · refine ⟨.lexeme [mark.char] _, chars, rfl, .mark mark, fun _ next hnext => ?_⟩
    obtain ⟨tail, rfl⟩ := head?_eq_some_iff.mp (Option.mem_def.mp hnext)
    exact Bool.eq_false_iff.mpr fun h => hdigit ⟨next, tail, rfl, h⟩

/-- What begins a comment to the end of the line has such a line. -/
theorem exists_remark {front} (hfront : ¬ EndsLine front) (hline : EndsLine (front ++ chars))
    (hcomment : ∀ body, '\n' ∉ body → Comment (front ++ (body ++ ['\n']))) :
    ∃ (segment : Segment) (rest : List Char), front ++ chars = segment.text ++ rest ∧
      segment.Proper rest := by
  have hne : chars ≠ [] := by
    rintro rfl
    rw [append_nil] at hline
    exact hfront hline
  obtain ⟨body, rest, rfl, hbody⟩ := hline.of_append.exists_line hne
  exact ⟨.comment _, rest, by simp [text], hcomment body hbody⟩

/-- A slash opens a comment, or it is reported. -/
theorem exists_slash (hline : EndsLine ('/' :: chars)) :
    ∃ (segment : Segment) (rest : List Char),
    '/' :: chars = segment.text ++ rest ∧ segment.Proper rest := by
  by_cases hslash : ∃ tail, chars = '/' :: tail
  · obtain ⟨tail, rfl⟩ := hslash
    have hfront : ¬ EndsLine ['/', '/'] := by simp [EndsLine]
    exact exists_remark hfront hline fun body hbody => .line hbody
  by_cases hstar : ∃ tail, chars = '*' :: tail
  · obtain ⟨tail, rfl⟩ := hstar
    by_cases hclosed : ['*', '/'] <:+: tail
    · obtain ⟨body, rest, rfl, hbody⟩ := exists_close hclosed
      exact ⟨.comment _, rest, by simp [text], .block hbody⟩
    · exact ⟨.error _ _, [], (append_nil _).symm, .openComment rfl hclosed⟩
  · refine ⟨.error ['/'] _, chars, rfl, .slash fun next hnext => ?_⟩
    obtain ⟨tail, rfl⟩ := head?_eq_some_iff.mp (Option.mem_def.mp hnext)
    exact ⟨by rintro rfl; exact hslash ⟨tail, rfl⟩, by rintro rfl; exact hstar ⟨tail, rfl⟩⟩

/-- **A text begins with a segment.** -/
theorem exists_proper (hline : EndsLine chars) (hne : chars ≠ []) :
    ∃ (segment : Segment) (rest : List Char),
    chars = segment.text ++ rest ∧ segment.Proper rest := by
  obtain ⟨c, chars, rfl⟩ := exists_cons_of_ne_nil hne
  by_cases hblank : Text.isBlank c = true
  · exact ⟨.blank c, chars, rfl, hblank⟩
  by_cases hslash : c = '/'
  · subst hslash
    exact exists_slash hline
  by_cases hdirective : c = '#' ∨ c = '%'
  · have hfront : ¬ EndsLine [c] := by rcases hdirective with rfl | rfl <;> simp [EndsLine]
    exact exists_remark hfront hline fun body hbody => .directive hdirective hbody
  by_cases hword : beginsWord c = true
  · exact exists_word hword chars
  by_cases hdigit : c.isDigit = true
  · exact exists_digit mem_cons_self hdigit chars
  by_cases hmark : ∃ mark : Mark, mark.char = c
  · obtain ⟨mark, rfl⟩ := hmark
    by_cases hsign : mark = .minus ∨ mark = .plus
    · exact exists_sign hsign chars
    · exact ⟨.lexeme [mark.char] _, chars, rfl, .mark mark, fun h => absurd h hsign⟩
  · rw [not_or] at hdirective
    exact ⟨.error [c] _, chars, rfl,
      .stray ⟨Bool.eq_false_iff.mpr hblank, Bool.eq_false_iff.mpr hword,
        Bool.eq_false_iff.mpr hdigit, not_exists.mp hmark, hslash, hdirective⟩⟩

/-! ### All segments -/

/-- **A text consists of segments.** -/
theorem exists_allProper (hline : EndsLine chars) :
    ∃ segments : List Segment, chars = segments.flatMap text ∧ AllProper segments := by
  induction hlength : chars.length using Nat.strongRecOn generalizing chars with
  | ind length ih =>
    by_cases hne : chars = []
    · exact ⟨[], hne, .nil⟩
    · obtain ⟨segment, rest, rfl, hproper⟩ := exists_proper hline hne
      have hpositive : 0 < segment.text.length := length_pos_of_ne_nil hproper.text_ne_nil
      rw [length_append] at hlength
      obtain ⟨segments, rfl, hsegments⟩ := ih rest.length (by omega) hline.of_append rfl
      exact ⟨segment :: segments, rfl, .cons hproper hsegments⟩

/-- What segments are answered with is what they are read as, in the light
of the names known. -/
theorem AllProper.map_results {segments} (h : AllProper segments) (symbols : Symbols)
    (here : Position) :
    (results here segments).map symbols.reply = replies symbols here segments := by
  induction h generalizing here with
  | nil => rfl
  | @cons segment segments hproper _ ih =>
    rw [results, replies, map_append, ih]
    cases segment with
    | blank | comment | error => rfl
    | lexeme spelling found =>
      rw [result?, Position.past_eq_advance hproper.1.plain hproper.1.ne_nil]
      rfl

end Segment

namespace Lexer

variable {symbols : Symbols}

/-- Draining a lexer calls it until it has no more results. -/
theorem calls_results (symbols : Symbols) (lexer : Lexer) :
    Calls symbols lexer (lexer.results.map symbols.reply) := by
  induction hlength : lexer.rest.length using Nat.strongRecOn generalizing lexer with
  | ind length ih =>
    rcases hnext : lexer.next with ⟨_ | result, after⟩
    · rw [results_of_next_eq_none hnext]
      exact .done hnext
    · have hshorter := length_next_lt hnext
      rw [results_of_next hnext]
      exact .more hnext hshorter (ih _ (hlength ▸ hshorter) after rfl)

/-- **The characters are segments**, and one call after the other answers
them. -/
theorem exists_segments (symbols : Symbols) (start here : Position) (hline : EndsLine chars) :
    ∃ segments : List Segment, chars = segments.flatMap text ∧ AllProper segments ∧
      Calls symbols ⟨start, here, itemsAt here chars⟩ (replies symbols here segments) := by
  obtain ⟨segments, rfl, hproper⟩ := exists_allProper hline
  refine ⟨segments, rfl, hproper, ?_⟩
  rw [← hproper.map_results, ← results_of_allProper hproper start here]
  exact calls_results symbols _

/-- Draining a lexer calls it until it has no more results. -/
theorem Calls.map_results {lexer replies} (h : Calls symbols lexer replies) :
    lexer.results.map symbols.reply = replies := by
  induction h with
  | done hnext => rw [results_of_next_eq_none hnext, map_nil]
  | more hnext _ _ ih => rw [results_of_next hnext, map_cons, ih]

end Lexer

/-- **The lexer loses and invents nothing**: a readable source is a sequence
of segments, and one call after the other answers them in turn, whatever
names are known.  The place of a reply lies on one line, and the replies
come in the order of their places. -/
theorem Lexer.exists_segments_of_readable (symbols : Symbols) (name : String)
    (bytes : List UInt8) (hreadable : (Source.ofBytes name bytes).Readable) :
    ∃ segments : List Segment,
      (Source.ofBytes name bytes).items =
        Source.itemsAt .first (segments.flatMap Segment.text) ∧
      Segment.AllProper segments ∧
      Lexer.Calls symbols (Lexer.ofSource (Source.ofBytes name bytes))
        (Segment.replies symbols .first segments) ∧
      (Lexer.ofSource (Source.ofBytes name bytes)).results.map symbols.reply =
        Segment.replies symbols .first segments ∧
      (∀ reply ∈ Segment.replies symbols .first segments,
        reply.span.start.line = reply.span.stop.line ∧ reply.span.start < reply.span.stop) ∧
      (Segment.replies symbols .first segments).Pairwise fun reply later =>
        reply.span.stop ≤ later.span.start := by
  have hitems := Source.items_eq_itemsAt hreadable
  obtain ⟨segments, hchars, hproper, hcalls⟩ :=
    exists_segments symbols .first .first
      (Source.endsLine_characters (Source.ofBytes name bytes))
  rw [← hitems] at hcalls
  refine ⟨segments, ?_, hproper, hcalls, hcalls.map_results, hproper.span, hproper.pairwise _⟩
  rw [hitems, hchars]

/-- The text `+-5 0x/x`: a sign before a signed numeral, a mark without
digits, a slash without a comment. -/
theorem Lexer.exists_segments_of_signs :
    (Source.ofBytes "signs" [43, 45, 53, 32, 48, 120, 47, 120]).Readable ∧
    ∃ segments : List Segment,
      (Source.ofBytes "signs" [43, 45, 53, 32, 48, 120, 47, 120]).items =
        Source.itemsAt .first (segments.flatMap Segment.text) ∧
      Segment.AllProper segments ∧
      Lexer.Calls .initial
        (Lexer.ofSource (Source.ofBytes "signs" [43, 45, 53, 32, 48, 120, 47, 120]))
        (Segment.replies .initial .first segments) := by
  have hreadable : (Source.ofBytes "signs" [43, 45, 53, 32, 48, 120, 47, 120]).Readable := by
    unfold Source.Readable
    decide +kernel
  obtain ⟨segments, hitems, hproper, hcalls, -⟩ :=
    exists_segments_of_readable .initial _ _ hreadable
  exact ⟨hreadable, segments, hitems, hproper, hcalls⟩

end Xdr
