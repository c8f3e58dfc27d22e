import Xdr.Proofs.Source.Lines
import Xdr.Proofs.Token.Unreadable

/-!
# Lines that follow others

Nothing but a block comment reaches from one line into the next.  So a text
is read line by line: what follows whole lines that leave no comment open is
answered as it is alone, further down.

## Main Statements

* `Segment.AllProper.append` — the segments of whole lines and those of a
  text after them are the segments of both
* `Segment.results_lower` — what segments are read as, further down
* `Scanner.drain_eq` — all replies of a scanner
* `Scanner.drain_append` — all replies to a text after whole lines
-/

namespace Xdr

open List Position

/-! ### Further down -/

/-- The same column, some lines further down. -/
def Position.lower (lines : Nat) (p : Position) : Position :=
  ⟨p.line + lines, p.column⟩

/-- The same columns, some lines further down. -/
def Span.lower (lines : Nat) (span : Span) : Span :=
  ⟨span.start.lower lines, span.stop.lower lines⟩

/-- The same answer, some lines further down. -/
def Lexer.lower {α β : Type} (lines : Nat) :
    Except (Located α) (Located β) → Except (Located α) (Located β)
  | .ok found => .ok ⟨found.span.lower lines, found.value⟩
  | .error error => .error ⟨error.span.lower lines, error.value⟩

theorem Position.past_lower (lines : Nat) (p : Position) (chars : List Char) :
    (p.lower lines).past chars = (p.past chars).lower lines := by
  induction chars generalizing p with
  | nil => rfl
  | cons c chars ih =>
    have hafter : (p.lower lines).after c = (p.after c).lower lines := by
      rw [after, after]
      split
      · simp only [newline, lower, Nat.add_right_comm]
      · split <;> rfl
    rw [past_cons, past_cons, hafter, ih]

theorem Symbols.reply_lower (symbols : Symbols) (lines : Nat) (result : Lexer.Result) :
    symbols.reply (Lexer.lower lines result) = Lexer.lower lines (symbols.reply result) := by
  cases result <;> rfl

/-- Whole lines lead to the beginning of a line. -/
theorem Source.past_characters {name bytes} (h : (ofBytes name bytes).Readable) :
    first.past (ofBytes name bytes).characters =
      first.lower (ofBytes name bytes).lines.length := by
  have hline : (first.past (ofBytes name bytes).characters).line =
    1 + (ofBytes name bytes).lines.length := by
    rw [line_past_count, count_newline_characters h]
    rfl
  have hcolumn : (first.past (ofBytes name bytes).characters).column = 1 := by
    rcases eq_nil_or_concat (ofBytes name bytes).characters with hnil | ⟨front, c, hchars⟩
    · rw [hnil]
      rfl
    · have hnewline : c = '\n' :=
        endsLine_characters (ofBytes name bytes) c (by rw [hchars]; simp)
      rw [hchars, concat_eq_append, past_append, hnewline]
      rfl
  generalize first.past (ofBytes name bytes).characters = p at hline hcolumn ⊢
  obtain ⟨line, column⟩ := p
  obtain rfl : line = 1 + (ofBytes name bytes).lines.length := hline
  obtain rfl : column = 1 := hcolumn
  rfl

namespace Segment

theorem results_lower (lines : Nat) (here : Position) (segments : List Segment) :
    results (here.lower lines) segments =
      (results here segments).map (Lexer.lower lines) := by
  induction segments generalizing here with
  | nil => rfl
  | cons segment segments ih =>
    rw [results, results, map_append, past_lower, ih]
    cases segment with
    | blank | comment | error => rfl
    | lexeme spelling found =>
      rw [result?, result?, past_lower]
      rfl

/-! ### The segments of whole lines -/

/-- Only the next character matters for what a segment is, and whether there
is one. -/
theorem Proper.append {segment : Segment} {after} (h : segment.Proper after)
    (hne : after ≠ []) (more : List Char) : segment.Proper (after ++ more) := by
  have hhead : (after ++ more).head? = after.head? := head?_append_of_ne_nil _ hne
  cases segment with
  | blank | comment => exact h
  | lexeme spelling found =>
    refine ⟨h.1, ?_⟩
    have hend := h.2
    cases found <;> simpa only [Lexeme.EndsBefore, hhead] using hend
  | error spelling fault =>
    cases h with
    | stray h => exact .stray h
    | slash h => exact .slash (by rwa [hhead])
    | openComment hend => exact absurd hend hne
    | badLiteral hnumber hcheck hend => exact .badLiteral hnumber hcheck (by rwa [hhead])
    | overflow hnumber hcheck hend => exact .overflow hnumber hcheck (by rwa [hhead])

/-- **The segments of whole lines** stay what they are before other lines. -/
theorem AllProper.append {segments others : List Segment} (h : AllProper segments)
    (hothers : AllProper others)
    (hgap : EndsInGap segments) : AllProper (segments ++ others) := by
  induction h with
  | nil => exact hothers
  | @cons segment segments hproper hrest ih =>
    refine .cons ?_ (ih hgap.of_cons)
    cases hrest with
    | nil =>
      -- A gap is complete, whatever follows it.
      have hnone := hgap segment rfl .first
      cases segment with
      | blank | comment => exact hproper
      | lexeme | error => cases hnone
    | cons hnext =>
      rw [append_eq, flatMap_append]
      exact hproper.append (append_ne_nil_of_left_ne_nil hnext.text_ne_nil _) _

end Segment

/-! ### All replies -/

namespace Scanner

open Source

/-- **Lexing goes line by line.**  A text is answered, after whole lines
that leave no comment open, as it is alone, but as many lines further down
as there are lines before it. -/
theorem drain_append (name front back : String) (symbols : Symbols)
    (hline : front = "" ∨ ∃ body, front = body ++ "\n")
    (hopen : ∀ span,
      .error ⟨span, .openComment⟩ ∉ (ofSource (.ofText name front) symbols).drain.1) :
    (ofSource (.ofText name (front ++ back)) symbols).drain.1 =
      (ofSource (.ofText name front) symbols).drain.1 ++
        (ofSource (.ofText name back) symbols).drain.1.map
          (Lexer.lower (Source.ofText name front).lines.length) := by
  have hread : ∀ {text segments},
    (Source.ofText name text).characters = segments.flatMap Segment.text →
      Segment.AllProper segments →
      (Lexer.ofSource (.ofText name text)).results = Segment.results .first segments :=
    Source.results_of_segments (Source.readable_ofText name _)
  obtain ⟨segments, hchars, hproper⟩ :=
    Segment.exists_allProper (Source.endsLine_characters (Source.ofText name front))
  obtain ⟨others, hothers, hothersProper⟩ :=
    Segment.exists_allProper (Source.endsLine_characters (Source.ofText name back))
  have hfront := hread hchars hproper
  -- A comment that is open at the end would have been reported.
  have hclosed : ∀ remark, segments.getLast? ≠ some (.error remark .openComment) := by
    intro remark hlast
    obtain ⟨span, hmem⟩ := (hproper.openComment_mem_results .first).mpr ⟨remark, hlast⟩
    refine hopen span ?_
    rw [drain_eq]
    exact mem_map.mpr ⟨_, hfront ▸ hmem, rfl⟩
  have hall := hproper.append hothersProper
    (hproper.endsInGap (hchars ▸ Source.endsLine_characters _) hclosed)
  have hwhole : (Source.ofText name (front ++ back)).characters =
    (segments ++ others).flatMap Segment.text := by
    rw [Source.characters_ofText_append hline, flatMap_append, ← hchars, ← hothers]
  have hpast : Position.first.past (Source.ofText name front).characters = _ :=
    Source.past_characters (Source.readable_ofText name front)
  rw [drain_eq, drain_eq, drain_eq, hread hwhole hall, hfront, hread hothers hothersProper,
    Segment.results_append, ← hchars, hpast, Segment.results_lower, map_append,
    map_map, map_map]
  congr 2
  exact funext fun result => symbols.reply_lower _ result

/-- A stray character and a comment over two lines, and then a semicolon
after a tab and a comment that does not end. -/
theorem drain_append_remark :
    (∀ span, .error ⟨span, .openComment⟩ ∉
      (ofSource (.ofText "notes.x" "$/*\n*/\n") .initial).drain.1) ∧
    (ofSource (.ofText "notes.x" ("$/*\n*/\n" ++ "\t;/*")) .initial).drain.1 =
      [.error ⟨.single ⟨1, 1⟩, .badChar '$'⟩, .ok ⟨⟨⟨3, 9⟩, ⟨3, 10⟩⟩, .mark .semicolon⟩,
        .error ⟨.single ⟨3, 10⟩, .openComment⟩] := by
  have hfront : (ofSource (.ofText "notes.x" "$/*\n*/\n") .initial).drain.1 =
      [.error ⟨.single ⟨1, 1⟩, .badChar '$'⟩] := by decide +kernel
  have hback : (ofSource (.ofText "notes.x" "\t;/*") .initial).drain.1 =
      [.ok ⟨⟨⟨1, 9⟩, ⟨1, 10⟩⟩, .mark .semicolon⟩,
        .error ⟨.single ⟨1, 10⟩, .openComment⟩] := by decide +kernel
  have hlines : (Source.ofText "notes.x" "$/*\n*/\n").lines.length = 2 := by decide +kernel
  have hopen : ∀ span, .error ⟨span, .openComment⟩ ∉
      (ofSource (.ofText "notes.x" "$/*\n*/\n") .initial).drain.1 := by
    intro span hmem
    rw [hfront] at hmem
    cases mem_singleton.mp hmem
  have hall :=
    drain_append "notes.x" "$/*\n*/\n" "\t;/*" .initial (.inr ⟨"$/*\n*/", rfl⟩) hopen
  rw [hfront, hback, hlines] at hall
  exact ⟨hopen, hall⟩

end Scanner
end Xdr
