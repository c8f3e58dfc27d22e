import Xdr.Proofs.Token.Composition

/-!
# Unreadable lines

A line that is not UTF-8 is reported once, and nothing of it or of what
follows it is read.  What stands before it is read as if it were the whole
source, with one exception: a block comment that is open there is not
reported as such.

## Main Statements

* `Source.endsInComment_iff` — a comment is open at the end if and only if
  the lexer reports it
* `Scanner.replyAt_of_unreadable` — the replies to all calls, if there is an
  unreadable line
* `Scanner.line_of_unreadable` — the line on which an unreadable line is
  reported
-/

namespace Xdr

open Lexer List

namespace Source

/-! ### Open comments -/

/-- The lines of a source end within a block comment. -/
def EndsInComment (source : Source) : Prop :=
  ∃ segments : List Segment, source.characters = segments.flatMap Segment.text ∧
    Segment.AllProper segments ∧
    ∃ remark, segments.getLast? = some (.error remark .openComment)

end Source

/-- A comment without an end is the last segment. -/
theorem Segment.AllProper.openComment_mem_results {segments} (h : AllProper segments)
    (here : Position) :
    (∃ span, .error ⟨span, .openComment⟩ ∈ results here segments) ↔
      ∃ remark, segments.getLast? = some (.error remark .openComment) := by
  induction h generalizing here with
  | nil => exact iff_of_false (by simp [results]) (by simp)
  | @cons segment segments hproper hrest ih =>
    by_cases hopen : ∃ remark, segment = .error remark .openComment
    · obtain ⟨remark, rfl⟩ := hopen
      have hlast : segments = [] := by
        cases hproper with
        | openComment hend =>
          cases hrest with
          | nil => rfl
          | cons hnext => exact absurd (append_eq_nil_iff.mp hend).1 hnext.text_ne_nil
      subst hlast
      exact iff_of_true ⟨_, mem_cons_self⟩ ⟨remark, rfl⟩
    · have hother : ∀ span, .error ⟨span, .openComment⟩ ∉ (segment.result? here).toList := by
        intro span hmem
        cases segment with
        | blank | comment | lexeme => simp [result?] at hmem
        | error remark fault =>
          simp only [result?, Option.toList_some, mem_singleton] at hmem
          cases hmem
          exact hopen ⟨remark, rfl⟩
      have hlast :
        (∃ remark, (segment :: segments).getLast? = some (.error remark .openComment)) ↔
          ∃ remark, segments.getLast? = some (.error remark .openComment) := by
        cases segments with
        | nil =>
          refine iff_of_false ?_ (by simp)
          rintro ⟨remark, heq⟩
          exact hopen ⟨remark, by simpa using heq⟩
        | cons next segments => rw [getLast?_cons_cons]
      rw [hlast, ← ih (here.past segment.text)]
      simp only [results, mem_append, hother, false_or]

/-- **A comment is open at the end** of readable lines if and only if the
lexer reports it. -/
theorem Source.endsInComment_iff {name : String} {bytes : List UInt8}
    (h : (ofBytes name bytes).Readable) : (ofBytes name bytes).EndsInComment ↔
      ∃ span, .error ⟨span, .openComment⟩ ∈ (ofSource (ofBytes name bytes)).results := by
  constructor
  · rintro ⟨segments, hchars, hproper, hlast⟩
    rw [results_of_segments h hchars hproper]
    exact (hproper.openComment_mem_results .first).mpr hlast
  · intro hmem
    obtain ⟨segments, hchars, hproper⟩ :=
      Segment.exists_allProper (endsLine_characters (ofBytes name bytes))
    rw [results_of_segments h hchars hproper] at hmem
    exact ⟨segments, hchars, hproper, (hproper.openComment_mem_results .first).mp hmem⟩

/-! ### All calls -/

namespace Lexer

theorem after_succ (lexer : Lexer) (calls : Nat) :
    lexer.after (calls + 1) = lexer.next.2.after calls := by
  induction calls with
  | zero => rfl
  | succ calls ih => rw [after, ih, after]

/-- A call has the result that comes after as many others. -/
theorem next_after (lexer : Lexer) (calls : Nat) :
    (lexer.after calls).next.1 = lexer.results[calls]? := by
  induction calls generalizing lexer with
  | zero =>
    rcases hnext : lexer.next with ⟨_ | result, rest⟩
    · rw [results_of_next_eq_none hnext]
      exact congrArg Prod.fst hnext
    · rw [results_of_next hnext]
      exact congrArg Prod.fst hnext
  | succ calls ih =>
    rw [after_succ, ih]
    rcases hnext : lexer.next with ⟨_ | result, rest⟩
    · rw [results_eq_nil_of_next hnext, results_of_next_eq_none hnext]
      rfl
    · rw [results_of_next hnext, getElem?_cons_succ]

end Lexer

namespace Scanner

open Source

/-- Results in the light of the tables at the calls. -/
def Schedule.replies (schedule : Schedule) (symbols : Symbols) (results : List Result) :
    List Reply :=
  results.mapIdx fun call => (schedule.table symbols call).reply

/-- The replies to all calls are the results, in the light of the tables at
the calls. -/
theorem replyAt_eq_getElem? (source : Source) (symbols : Symbols) (schedule : Schedule)
    (call : Nat) : (ofSource source symbols).replyAt schedule call =
      (schedule.replies symbols (Lexer.ofSource source).results)[call]? := by
  rw [replyAt_eq, next_after, Schedule.replies, getElem?_mapIdx]

namespace Schedule

variable {schedule : Schedule} {symbols : Symbols} {results : List Result}
    {error : Located LexError}

/-- An error is the same in the light of any table. -/
theorem replies_concat : schedule.replies symbols (results ++ [.error error]) =
    schedule.replies symbols results ++ [.error error] :=
  mapIdx_concat

theorem error_mem_replies (h : .error error ∈ schedule.replies symbols results) :
    .error error ∈ results := by
  obtain ⟨call, hcall, hreply⟩ := mem_mapIdx.mp h
  cases hresult : results[call] with
  | ok lexeme =>
    rw [hresult] at hreply
    cases hreply
  | error found =>
    rw [hresult] at hreply
    cases hreply
    exact hresult ▸ getElem_mem hcall

end Schedule

/-- **A read error never costs a token.**  If a source has an unreadable
line, its lines before the first of these are those of some first bytes.
Whatever names are known and become known between the calls, the calls are
answered with the replies to these first bytes alone, without the last of
them if it reports that the lines end within a comment; then the unreadable
line is reported; and then nothing.  All this is the same for any source
that has these lines and then an unreadable one. -/
theorem replyAt_of_unreadable (name : String) (bytes : List UInt8)
    (h : ¬ (Source.ofBytes name bytes).Readable) :
    ∃ (front : List UInt8) (later : List (Option String)),
      front <+: bytes ∧ (Source.ofBytes name front).Readable ∧
      (Source.ofBytes name bytes).lines = (Source.ofBytes name front).lines ++ none :: later ∧
      ∀ (symbols : Symbols) (schedule : Schedule),
        ∃ (replies : List Lexer.Reply) (place : Position),
          (∀ reply ∈ replies, ∀ span,
            reply ≠ .error ⟨span, .unreadable⟩ ∧ reply ≠ .error ⟨span, .openComment⟩) ∧
          ((Source.ofBytes name front).EndsInComment ∧
            (∀ call, (ofSource (.ofBytes name front) symbols).replyAt schedule call =
              (replies ++ [.error ⟨.single place, .openComment⟩])[call]?) ∨
            ¬ (Source.ofBytes name front).EndsInComment ∧
            ∀ call, (ofSource (.ofBytes name front) symbols).replyAt schedule call =
              replies[call]?) ∧
          ∀ (others : List UInt8) (later : List (Option String)),
            (Source.ofBytes name others).lines =
              (Source.ofBytes name front).lines ++ none :: later →
            ∀ call, (ofSource (.ofBytes name others) symbols).replyAt schedule call =
              (replies ++ [.error ⟨.single place, .unreadable⟩])[call]? := by
  obtain ⟨front, later, hfront, hreadable, hlines⟩ := exists_lines_before name h
  refine ⟨front, later, hfront, hreadable, hlines, fun symbols schedule => ?_⟩
  obtain ⟨results, place, -, hinline, hfull, halone⟩ := results_before_unreadable hreadable
  have hcomment := endsInComment_iff hreadable
  refine ⟨schedule.replies symbols results, place, fun reply hreply span => ⟨?_, ?_⟩, ?_,
    fun others later hothers call => ?_⟩
  · rintro rfl
    exact (hinline _ (Schedule.error_mem_replies hreply)).1 rfl
  · rintro rfl
    exact (hinline _ (Schedule.error_mem_replies hreply)).2 rfl
  · rcases halone with ⟨halone, -⟩ | halone
    · refine .inr ⟨fun hopen => ?_, fun call => by rw [replyAt_eq_getElem?, halone]⟩
      obtain ⟨span, hspan⟩ := hcomment.mp hopen
      exact (hinline _ (halone ▸ hspan)).2 rfl
    · refine .inl ⟨hcomment.mpr ⟨.single place, ?_⟩, fun call => ?_⟩
      · rw [halone]
        exact mem_append_right _ mem_cons_self
      · rw [replyAt_eq_getElem?, halone, Schedule.replies_concat]
  · rw [replyAt_eq_getElem?, hfull others later hothers, Schedule.replies_concat]

/-- A word and the beginning of a comment, a line that is not UTF-8, and
another word. -/
def brokenRemark : List UInt8 :=
  [120, 32, 47, 42, 10, 255, 10, 121, 10]

/-- The first word is answered, and the second is not.  The comment is
reported as open only where its line stands alone. -/
theorem replyAt_of_unreadable_brokenRemark :
    ¬ (Source.ofBytes "remark.x" brokenRemark).Readable ∧
    ∃ (front : List UInt8) (replies : List Lexer.Reply) (place : Position),
      front <+: brokenRemark ∧ (Source.ofBytes "remark.x" front).lines = [some "x /*"] ∧
      (∀ call, (ofSource (.ofBytes "remark.x" front) .initial).replyAt (fun _ => []) call =
        (replies ++ [.error ⟨.single place, .openComment⟩])[call]?) ∧
      ∀ call,
        (ofSource (.ofBytes "remark.x" brokenRemark) .initial).replyAt (fun _ => []) call =
          (replies ++ [.error ⟨.single place, .unreadable⟩])[call]? := by
  have hall : (Source.ofBytes "remark.x" brokenRemark).lines =
    [some "x /*", none, some "y"] := by decide +kernel
  have hbroken : ¬ (Source.ofBytes "remark.x" brokenRemark).Readable := by
    rw [Readable, hall]
    simp
  obtain ⟨front, later, hfront, hreadable, hlines, hreplies⟩ :=
    replyAt_of_unreadable "remark.x" brokenRemark hbroken
  have hbefore : (Source.ofBytes "remark.x" front).lines = [some "x /*"] := by
    have hsplit : [some "x /*"] ++ none :: [some "y"] =
      (Source.ofBytes "remark.x" front).lines ++ none :: later :=
      hall.symm.trans hlines
    exact ((append_cons_inj_of_notMem (by simp) (by simp)).mp hsplit).1.symm
  have hsource : Source.ofBytes "remark.x" front = ⟨"remark.x", [some "x /*"]⟩ := by
    rw [← hbefore]
    rfl
  have hcomment : (Source.ofBytes "remark.x" front).EndsInComment := by
    refine (endsInComment_iff hreadable).mpr ⟨.single ⟨1, 3⟩, ?_⟩
    rw [hsource]
    decide +kernel
  obtain ⟨replies, place, -, ⟨-, halone⟩ | ⟨hnot, -⟩, hfull⟩ := hreplies .initial fun _ => []
  · exact ⟨hbroken, front, replies, place, hfront, hbefore, halone, hfull _ _ hlines⟩
  · exact absurd hcomment hnot

/-- **Where an unreadable line is reported.**  Its error is the only one of
its kind, and it is placed on the line before it, unless it is the first
line.  So it names its own line only if nothing stands before it. -/
theorem line_of_unreadable (name : String) (bytes : List UInt8)
    (before later : List (Option String))
    (hlines : (Source.ofBytes name bytes).lines = before ++ none :: later)
    (hbefore : ∀ line ∈ before, line.isSome)
    (hclosed : ¬ (⟨name, before⟩ : Source).EndsInComment) (symbols : Symbols)
    (schedule : Schedule) :
    ∃ (call : Nat) (place : Position),
      (∀ other span, (ofSource (.ofBytes name bytes) symbols).replyAt schedule other =
        some (.error ⟨span, .unreadable⟩) ↔ other = call ∧ span = .single place) ∧
      place.line = max 1 before.length ∧ (place.line = before.length + 1 ↔ before = []) := by
  have hbroken : ¬ (Source.ofBytes name bytes).Readable := by
    intro hreadable
    rw [Readable, hlines] at hreadable
    cases hreadable none (mem_append_right _ mem_cons_self)
  obtain ⟨front, rest, -, hreadable, hfront⟩ := exists_lines_before name hbroken
  -- The lines before the first unreadable one are the same, however they are found.
  have hread : ∀ lines more : List (Option String), (∀ line ∈ lines, line.isSome) →
      (lines ++ none :: more).takeWhile Option.isSome = lines := by
    intro lines more h
    rw [takeWhile_append_of_pos h, takeWhile_cons_of_neg (by simp), append_nil]
  obtain rfl : before = (Source.ofBytes name front).lines := by
    rw [← hread before later hbefore, ← hlines, hfront, hread _ _ hreadable]
  obtain ⟨results, place, -, hinline, hfull, ⟨halone, hline⟩ | halone⟩ :=
    results_before_unreadable hreadable
  · refine ⟨(schedule.replies symbols results).length, place, fun other span => ?_, hline, ?_⟩
    · rw [replyAt_eq_getElem?, hfull bytes rest hfront, Schedule.replies_concat,
        getElem?_append]
      split
      · next hother =>
        refine iff_of_false (fun hreply => ?_) fun heq => Nat.ne_of_lt hother heq.1
        exact (hinline _ (Schedule.error_mem_replies (mem_of_getElem? hreply))).1 rfl
      · next hother =>
        rw [getElem?_singleton]
        split
        · have heq : other = (schedule.replies symbols results).length := by omega
          simp [heq, eq_comm]
        · exact iff_of_false (by simp) fun heq => absurd heq.1 (by omega)
    · rw [hline, ← length_eq_zero_iff]
      omega
  · refine absurd ((endsInComment_iff hreadable).mpr ⟨.single place, ?_⟩) hclosed
    rw [halone]
    exact mem_append_right _ mem_cons_self

/-- After a line with a single word, the second line is reported on the
first. -/
theorem line_of_unreadable_second :
    (Source.ofBytes "test.x" [97, 10, 255]).lines = [some "a"] ++ none :: [] ∧
    ∃ (call : Nat) (place : Position),
      (ofSource (.ofBytes "test.x" [97, 10, 255]) .initial).replyAt (fun _ => []) call =
        some (.error ⟨.single place, .unreadable⟩) ∧ place.line = 1 ∧ place.line ≠ 2 := by
  have hlines : (Source.ofBytes "test.x" [97, 10, 255]).lines = [some "a"] ++ none :: [] := by
    decide +kernel
  have hsource : Source.ofBytes "test.x" [97, 10] = ⟨"test.x", [some "a"]⟩ := by
    have hbefore : (Source.ofBytes "test.x" [97, 10]).lines = [some "a"] := by decide +kernel
    rw [← hbefore]
    rfl
  have hreadable : (Source.ofBytes "test.x" [97, 10]).Readable := by
    rw [hsource]
    simp [Readable]
  have hclosed : ¬ (⟨"test.x", [some "a"]⟩ : Source).EndsInComment := by
    rw [← hsource, endsInComment_iff hreadable]
    rintro ⟨span, hmem⟩
    have hresults : (Lexer.ofSource (Source.ofBytes "test.x" [97, 10])).results =
        [.ok ⟨⟨⟨1, 1⟩, ⟨1, 2⟩⟩, .word "a"⟩] := by decide +kernel
    rw [hresults] at hmem
    cases mem_singleton.mp hmem
  obtain ⟨call, place, hreply, hline, -⟩ :=
    line_of_unreadable "test.x" [97, 10, 255] [some "a"] [] hlines
      (by simp) hclosed .initial fun _ => []
  refine ⟨hlines, call, place, (hreply call _).mpr ⟨rfl, rfl⟩, hline, ?_⟩
  rw [hline]
  decide

end Scanner
end Xdr
