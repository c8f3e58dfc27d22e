import Mathlib.Data.List.Chain
import Xdr.Proofs.Token.Segment

/-!
# Scanning and lexing

The scanner has the table at hand in every state, and the lexer has none.
Yet both take the same characters and stop at the same places; the table
only says what the names among the lexemes stand for.  So however the table
changes between two calls, no later token moves, and no error comes or goes.

## Main Statements

* `Scanner.Follows.next` — a call of the scanner is answered with the lexeme
  or error of the lexer
* `Scanner.replyAt_eq` — each reply is that of the lexer, in the light of
  the table at that call
* `Scanner.replyAt_alike` — two runs over the same bytes differ in the
  classes of names at most

## Design Notes

The scanner would lose a token that an unreadable line follows at once.  A
source has a newline in between, which is what `Source.Lined` says, and what
is used of it is that a character other than a newline is not followed by
such a line (`Source.Lined.within`).
-/

namespace Xdr

open Bool Lexer List Numeral Option

/-! ### Lines -/

namespace Source

/-- Items among which an unreadable line begins only where the line before
it has ended. -/
def Lined (items : List Item) : Prop :=
  items.IsChain fun item next =>
    next = .unreadable → ∀ c after, item = .char c after → c = '\n'

/-- Items in the middle of a line. -/
structure Within (items : List Item) : Prop where
  head : .unreadable ∉ items.head?
  lined : Lined items

variable {items : List Item}

theorem Lined.tail {item} (h : Lined (item :: items)) : Lined items :=
  (isChain_cons.mp h).2

/-- After another character than a newline the line goes on. -/
theorem Lined.within {c after} (h : Lined (.char c after :: items)) (hc : c ≠ '\n') :
    Within items where
  head hmem := hc ((isChain_cons.mp h).1 _ hmem rfl c after rfl)
  lined := h.tail

theorem lined_lineItems_append (h : Lined items) (here : Position) (chars : List Char) :
    Lined (lineItems here chars ++ items) := by
  induction chars generalizing here with
  | nil =>
    refine isChain_cons.mpr ⟨?_, h⟩
    rintro next - - c after heq
    exact (Item.char.inj heq).1.symm
  | cons c chars ih =>
    refine isChain_cons.mpr ⟨?_, ih _⟩
    -- A line has a next character, be it the newline that ends it.
    rintro next hnext rfl
    cases chars <;> cases hnext

/-- The items of a source are lined. -/
theorem lined_items (source : Source) : Lined source.items := by
  have hlines : ∀ (line : Nat) (lines : List (Option String)),
    Lined (itemsFrom line lines) := by
    intro line lines
    induction lines generalizing line with
    | nil => exact .nil
    | cons first lines ih =>
      cases first with
      | none =>
        refine isChain_cons.mpr ⟨?_, ih _⟩
        rintro next - - c after heq
        cases heq
      | some text => exact lined_lineItems_append (ih _) _ _
  exact hlines 1 source.lines

end Source

open Source

/-! ### Runs -/

namespace Lexer

/-- The characters that go on with what was read before them, the position
after them, and what is left.  Whether a character goes on may depend on all
that was read. -/
def grown (goesOn : List Char → Char → Bool) (text : List Char) (here : Position) :
    List Item → List Char × Position × List Item
  | .char c next :: rest =>
    if goesOn text c then
      let (more, stop, left) := grown goesOn (text ++ [c]) next rest
      (c :: more, stop, left)
    else ([], here, .char c next :: rest)
  | items => ([], here, items)

theorem grown_eq_run {goesOn p text}
    (hp : ∀ more, (∀ d ∈ more, p d = true) → ∀ c, goesOn (text ++ more) c = p c)
    (here : Position) (items : List Item) :
    grown goesOn text here items = run p here items := by
  induction items generalizing text here with
  | nil => rfl
  | cons item items ih =>
    cases item with
    | unreadable => rfl
    | char c next =>
      have hc := hp [] (by simp) c
      rw [append_nil] at hc
      rw [grown, run, hc]
      split
      · next htrue =>
        rw [ih fun more hmore d => ?_]
        rw [append_assoc]
        exact hp (c :: more) (forall_mem_cons.mpr ⟨htrue, hmore⟩) d
      · rfl

/-- From its first digit on, a numeral is read as far as it goes on. -/
theorem digits_eq_grown {sign} (hsign : sign ∈ [[], ['-'], ['+']]) {first : Char}
    (hfirst : first.isDigit = true) (here : Position) (items : List Item) :
    digits first here items = grown continues (sign ++ [first]) here items := by
  cases items with
  | nil => rfl
  | cons item items =>
    cases item with
    | unreadable => rfl
    | char c next =>
      rw [digits, grown, append_assoc, continues_decimal hsign hfirst (by simp)]
      by_cases hmark : (first == '0' && (c == 'x' || c == 'X')) = true
      · obtain ⟨rfl, hx⟩ : first = '0' ∧ (c = 'x' ∨ c = 'X') := by simpa using hmark
        rw [if_pos hmark, if_pos (by simpa using .inr hx), grown_eq_run fun more _ d => ?_]
        simpa using continues_hex hsign hx more d
      · have hnone : ([first] == ['0'] && (c == 'x' || c == 'X')) = false := by
          simpa using hmark
        rw [if_neg hmark, run, hnone, Bool.or_false]
        split
        · next hc =>
          -- After a second digit, no mark can follow any more.
          rw [grown_eq_run fun more hmore d => ?_]
          have hdigits : ∀ d ∈ c :: more, isDigitIn 10 d = true :=
            forall_mem_cons.mpr ⟨hc, hmore⟩
          simpa using continues_decimal hsign hfirst hdigits d
        · rfl

end Lexer

namespace Scanner

variable {symbols : Symbols} {start here : Position} {items : List Item}

/-- Reading on, where the next character goes on with what was read. -/
theorem scan_take {state state' : State} {c next rest}
    (h : state.move symbols (some c) = .take state') :
    scan symbols start here state (.char c next :: rest) =
      scan symbols (state.origin start here) next state' rest := by
  rw [scan, h]

/-- Reading on, where what was read is complete before the next character. -/
theorem scan_finish {state : State} {outcome c next rest}
    (h : state.move symbols (some c) = .finish outcome) :
    scan symbols start here state (.char c next :: rest) =
      (some (reply (state.origin start here) here outcome),
        ⟨.start, state.origin start here, here, .char c next :: rest, symbols⟩) := by
  rw [scan, h]

/-! ### Words and numerals -/

/-- What a run of characters is answered with: it is complete where the run
ends, and then it is `done`. -/
def answered (symbols : Symbols) (start : Position) (done : List Char → Except LexError Token)
    (run : List Char × Position × List Item) : Option Reply × Scanner :=
  (some (reply start run.2.1 (done run.1)), ⟨.start, start, run.2.1, run.2.2, symbols⟩)

/-- Reading on from a state that grows along a run, as it goes on with the
characters of the run and is complete before any other. -/
theorem scan_grown {goesOn} (state : List Char → State)
    (done : List Char → Except LexError Token)
    (hmove : ∀ text next, (state text).move symbols next =
      (next.filter (goesOn text)).elim (.finish (done text)) fun c =>
      .take (state (text ++ [c])))
    (horigin : ∀ text here, (state text).origin start here = start)
    (hnewline : ∀ text, goesOn text '\n' = false) (text : List Char) (hitems : Within items) :
    scan symbols start here (state text) items =
      answered symbols start (fun more =>
        done (text ++ more)) (grown goesOn text here items) := by
  induction items generalizing here text with
  | nil =>
    rw [scan, hmove, horigin]
    simp [grown, answered]
  | cons item items ih =>
    cases item with
    | unreadable => exact absurd rfl hitems.head
    | char c next =>
      have hnext := hmove text (some c)
      rw [filter_some] at hnext
      rw [grown]
      by_cases hc : goesOn text c = true
      · have hline : c ≠ '\n' := by
          rintro rfl
          rw [hnewline] at hc
          cases hc
        rw [if_pos hc, elim_some] at hnext
        rw [scan_take hnext, horigin, ih _ (hitems.lined.within hline), if_pos hc]
        simp [answered]
      · rw [if_neg hc] at hnext
        rw [scan_finish hnext, horigin, if_neg hc]
        simp [answered]

/-- A word is read to its end. -/
theorem scan_word (c : Char) (hitems : Within items) :
    scan symbols start here (.word [c]) items =
      answered symbols start
        (fun more => .ok (symbols.classify (wordLexeme (String.ofList (c :: more)))))
        (run continuesWord here items) := by
  rw [← @Lexer.grown_eq_run (fun _ => continuesWord) _ [c] fun _ _ _ => rfl]
  refine scan_grown .word (fun text =>
    .ok (symbols.classify (wordLexeme (String.ofList text)))) ?_
    (fun _ _ => rfl) (fun _ => rfl) [c] hitems
  intro text next
  rw [State.move]
  cases next.filter continuesWord <;> rfl

/-- A numeral is read to its end, from its first digit on. -/
theorem scan_digits {sign} (hsign : sign ∈ [[], ['-'], ['+']]) {first : Char}
    (hfirst : first.isDigit = true) (hitems : Within items) :
    scan symbols start here (.number (sign ++ [first])) items =
      answered symbols start (fun more =>
        literal (sign ++ first :: more)) (digits first here items) := by
  have hnumber :=
    @scan_grown symbols start here items continues .number literal ?_ (fun _ _ => rfl) ?_
    (sign ++ [first]) hitems
  · simpa only [digits_eq_grown hsign hfirst, append_assoc, singleton_append] using hnumber
  · intro text next
    rw [State.move]
    cases next.filter (continues text) <;> rfl
  · intro text
    rw [continues]
    split
    · rfl
    · exact and_false _

/-! ### Calls -/

/-- A scanner stands where a lexer does.  A lexer that met an unreadable
line has nothing left. -/
inductive Follows : Scanner → Lexer → Prop where
  | reading (start here : Position) (rest : List Item) (symbols : Symbols) :
      Follows ⟨.start, start, here, rest, symbols⟩ ⟨start, here, rest⟩
  | halted (start here : Position) (rest : List Item) (symbols : Symbols) :
      Follows ⟨.halted, start, here, rest, symbols⟩ ⟨start, start, []⟩

/-- A scanner and a lexer give the same, in the light of the table, and then
stand at the same place. -/
structure Agrees (symbols : Symbols) (scanned : Option Reply × Scanner)
    (lexed : Option Result × Lexer) : Prop where
  reply : scanned.1 = lexed.1.map symbols.reply
  follows : Follows scanned.2 lexed.2
  symbols : scanned.2.symbols = symbols

/-- The outcome of the scanner where that of the lexer is known. -/
theorem agrees_reading (symbols : Symbols) (start here : Position) (rest : List Item)
    (result : Option Result) :
    Agrees symbols (result.map symbols.reply, ⟨.start, start, here, rest, symbols⟩)
      (result, ⟨start, here, rest⟩) :=
  ⟨rfl, .reading start here rest symbols, rfl⟩

theorem agrees_numeral (symbols : Symbols) (start stop : Position) (text : List Char)
    (rest : List Item) :
    Agrees symbols (some (reply start stop (literal text)), ⟨.start, start, stop, rest,
      symbols⟩) (numeral start text stop rest) := by
  have hreply : some (reply start stop (literal text)) =
    (numeral start text stop rest).1.map symbols.reply := by
    rw [literal, numeral]
    cases check text with
    | none => rfl
    | some fault => cases fault <;> rfl
  rw [hreply]
  exact agrees_reading symbols start stop rest _

/-- A sign begins a numeral before a digit, and is a mark before anything
else. -/
theorem agrees_sign {c} (hc : c = '-' ∨ c = '+') {next rest} (hrest : Within rest) :
    Agrees symbols (scan symbols here next (.sign c) rest) (lexeme c here next rest) := by
  have hkind : beginsWord c = false ∧ c.isDigit = false ∧ (c == '-' || c == '+') = true := by
    rcases hc with rfl | rfl <;> decide
  simp only [lexeme, hkind, false_eq_true, if_false, if_true]
  cases rest with
  | nil =>
    exact agrees_reading symbols here next [] (some (.ok ⟨⟨here, next⟩, .mark (signMark c)⟩))
  | cons item tail =>
    cases item with
    | unreadable => exact absurd rfl hrest.head
    | char digit after =>
      by_cases hdigit : digit.isDigit = true
      · have hline : digit ≠ '\n' := by
          rintro rfl
          cases hdigit
        have hnumber :=
          @scan_digits symbols here after tail [c] (by simpa using hc) digit hdigit
          (hrest.lined.within hline)
        have hmove :
          (State.sign c).move symbols (some digit) = .take (.number ([c] ++ [digit])) := by
          simp [State.move, filter_some, hdigit]
        rw [scan_take hmove]
        dsimp only
        rw [if_pos hdigit]
        exact hnumber ▸ agrees_numeral symbols here _ _ _
      · have hmove :
          (State.sign c).move symbols (some digit) = .finish (.ok (.mark (signMark c))) := by
          simp [State.move, filter_some, hdigit]
        rw [scan_finish hmove]
        dsimp only
        rw [if_neg hdigit]
        exact agrees_reading symbols here next (.char digit after :: tail)
          (some (.ok ⟨⟨here, next⟩, .mark (signMark c)⟩))

/-- A mark that stands alone is complete, whatever follows. -/
theorem scan_complete (mark : Mark) (hitems : Within items) :
    scan symbols start here (.complete mark) items =
      (some (.ok ⟨⟨start, here⟩, .mark mark⟩), ⟨.start, start, here, items, symbols⟩) := by
  cases items with
  | nil => rfl
  | cons item items =>
    cases item with
    | unreadable => exact absurd rfl hitems.head
    | char c next => rfl

/-- Where a lexeme begins, or nothing does, the scanner reads what the lexer
does. -/
theorem agrees_lexeme {c next rest} (hlined : Lined (.char c next :: rest))
    (hblank : Text.isBlank c = false) (hslash : (c == '/') = false)
    (hline : (c == '#' || c == '%') = false) :
    Agrees symbols (scan symbols start here .start (.char c next :: rest))
      (lexeme c here next rest) := by
  have hrest : Within rest := by
    refine hlined.within ?_
    rintro rfl
    cases hblank
  -- What the first character leads to is read off `State.first`, in whose order the cases
  -- come.
  have hmove : State.move symbols .start (some c) = State.first c := rfl
  rw [State.first, if_neg (eq_false_iff.mp hblank), if_neg (eq_false_iff.mp hslash),
    if_neg (eq_false_iff.mp hline)] at hmove
  by_cases hword : beginsWord c = true
  · rw [if_pos hword] at hmove
    unfold lexeme
    rw [scan_take hmove, scan_word c hrest, if_pos hword]
    exact agrees_reading symbols here _ _ (some (.ok ⟨⟨here, _⟩, _⟩))
  rw [if_neg hword] at hmove
  by_cases hdigit : c.isDigit = true
  · rw [if_pos hdigit] at hmove
    have hnumber := @scan_digits symbols here next rest [] mem_cons_self c hdigit hrest
    rw [nil_append] at hnumber
    unfold lexeme
    rw [scan_take hmove, if_neg hword, if_pos hdigit]
    exact hnumber ▸ agrees_numeral symbols here _ _ _
  rw [if_neg hdigit] at hmove
  by_cases hsign : (c == '-' || c == '+') = true
  · rw [if_pos hsign] at hmove
    rw [scan_take hmove]
    exact agrees_sign (by simpa using hsign) hrest
  rw [if_neg hsign] at hmove
  unfold lexeme
  rw [if_neg hword, if_neg hdigit, if_neg hsign]
  cases hmark : Mark.ofChar? c with
  | some mark =>
    simp only [hmark] at hmove
    rw [scan_take hmove, scan_complete mark hrest]
    exact agrees_reading symbols here next rest (some (.ok ⟨⟨here, next⟩, .mark mark⟩))
  | none =>
    simp only [hmark] at hmove
    rw [scan, hmove]
    exact agrees_reading symbols here next rest (some (.error ⟨.single here, .badChar c⟩))

/-- The state in which a gap is read. -/
def State.ofGap : Gap → State
  | .blank => .start
  | .slash => .slash
  | .line => .line
  | .block => .block
  | .star => .star

/-- **Reading through a gap**, the scanner comes to the lexeme, error or end
that the lexer comes to. -/
theorem agrees_scan (gap : Lexer.Gap) (hlined : Lined items) :
    Agrees symbols (scan symbols start here (.ofGap gap) items)
      (Lexer.scan start here gap items) := by
  induction items generalizing start here gap with
  | nil =>
    cases gap with
    | blank | line => exact agrees_reading symbols here here [] none
    | slash =>
      exact agrees_reading symbols start here [] (some (.error ⟨.single start, .badChar '/'⟩))
    | block | star =>
      exact agrees_reading symbols start here [] (some (.error ⟨.single start, .openComment⟩))
  | cons item items ih =>
    cases item with
    | unreadable =>
      have hlexer : Lexer.scan start here gap (.unreadable :: items) =
          (some (.error ⟨.single start, .unreadable⟩), ⟨start, start, []⟩) := by
        cases gap <;> rfl
      rw [hlexer]
      exact ⟨rfl, .halted start here items symbols, rfl⟩
    | char c next =>
      -- The gap that `c` leads to is read on as one item less.
      have hstep : ∀ gap' : Lexer.Gap,
        State.move symbols (.ofGap gap) (some c) = .take (.ofGap gap') →
          Agrees symbols (scan symbols start here (.ofGap gap) (.char c next :: items))
            (Lexer.scan (State.origin start here (.ofGap gap)) next gap' items) := by
        intro gap' hmove
        rw [scan_take hmove]
        exact ih gap' hlined.tail
      cases gap with
      | blank =>
        have hmove : State.move symbols (.ofGap .blank) (some c) = State.first c := rfl
        rw [Lexer.scan]
        by_cases hblank : Text.isBlank c = true
        · rw [if_pos hblank]
          exact hstep .blank (by rw [hmove, State.first, if_pos hblank]; rfl)
        by_cases hslash : (c == '/') = true
        · rw [if_neg hblank, if_pos hslash]
          exact hstep .slash (by rw [hmove, State.first, if_neg hblank, if_pos hslash]; rfl)
        by_cases hline : (c == '#' || c == '%') = true
        · rw [if_neg hblank, if_neg hslash, if_pos hline]
          exact hstep .line
            (by rw [hmove, State.first, if_neg hblank, if_neg hslash, if_pos hline]; rfl)
        rw [if_neg hblank, if_neg hslash, if_neg hline]
        exact agrees_lexeme hlined (eq_false_iff.mpr hblank) (eq_false_iff.mpr hslash)
          (eq_false_iff.mpr hline)
      | slash =>
        rw [Lexer.scan]
        by_cases hslash : c = '/'
        · subst hslash
          exact hstep .line rfl
        by_cases hstar : c = '*'
        · subst hstar
          exact hstep .block rfl
        have hmove :
          State.move symbols (.ofGap .slash) (some c) = .finish (.error (.badChar '/')) := by
          simp [State.ofGap, State.move, hslash, hstar]
        rw [scan_finish hmove, if_neg (by simpa using hslash), if_neg (by simpa using hstar)]
        exact agrees_reading symbols start here _
          (some (.error ⟨.single start, .badChar '/'⟩))
      | line =>
        refine hstep (if c == '\n' then .blank else .line) ?_
        by_cases hnewline : (c == '\n') = true <;> simp [State.ofGap, State.move, hnewline]
      | block =>
        refine hstep (if c == '*' then .star else .block) ?_
        by_cases hstar : (c == '*') = true <;> simp [State.ofGap, State.move, hstar]
      | star =>
        refine hstep (if c == '/' then .blank else if c == '*' then .star else .block) ?_
        by_cases hslash : (c == '/') = true <;> by_cases hstar : (c == '*') = true <;>
          simp [State.ofGap, State.move, hslash, hstar]

/-- What is left after a call is a suffix of what was left before it. -/
theorem rest_scan_suffix (state : State) (items : List Item) :
    (scan symbols start here state items).2.rest <:+ items := by
  induction items generalizing start here state with
  | nil =>
    rw [scan]
    split <;> exact nil_suffix
  | cons item items ih =>
    cases item with
    | unreadable => exact suffix_cons _ _
    | char c next =>
      rw [scan]
      split
      · exact (ih _).trans (suffix_cons _ _)
      · exact suffix_cons _ _
      · exact suffix_refl _
      · exact suffix_refl _

/-- **A call of the scanner** is answered with what the lexer gives, in the
light of the table, and leaves them at the same place. -/
theorem Follows.next {scanner : Scanner} {lexer : Lexer} (h : Follows scanner lexer)
    (hlined : Lined scanner.rest) :
    Agrees scanner.symbols scanner.next lexer.next ∧ Lined scanner.next.2.rest := by
  cases h with
  | reading start here rest symbols =>
    exact ⟨agrees_scan .blank hlined, hlined.suffix (rest_scan_suffix _ _)⟩
  | halted start here rest symbols =>
    exact ⟨⟨rfl, .halted start here rest symbols, rfl⟩, hlined⟩

/-! ### Runs -/

/-- A change of the table between two calls. -/
inductive Edit where
  /-- A name is declared. -/
  | declare (name : String) (cls : SymbolClass)
  /-- A constant is declared with its value. -/
  | define (name value : String)
  /-- Another table takes the place of the one there was. -/
  | replace (symbols : Symbols)

/-- The table after a change.  A declaration of a name that is known is
refused, and changes nothing. -/
def Edit.apply (symbols : Symbols) : Edit → Symbols
  | .declare name cls => (symbols.declare name cls).toOption.getD symbols
  | .define name value => (symbols.defineConstant name value).toOption.getD symbols
  | .replace other => other

/-- The changes before each call. -/
abbrev Schedule := Nat → List Edit

/-- The table at a call: the changes up to it, one after the other. -/
def Schedule.table (schedule : Schedule) (symbols : Symbols) : Nat → Symbols
  | 0 => (schedule 0).foldl Edit.apply symbols
  | call + 1 => (schedule (call + 1)).foldl Edit.apply (schedule.table symbols call)

/-- The scanner after some changes. -/
def edit (edits : List Edit) (scanner : Scanner) : Scanner :=
  { scanner with symbols := edits.foldl Edit.apply scanner.symbols }

/-- The scanner at a call: after the calls before it, and all changes up to
it. -/
def reached (schedule : Schedule) (scanner : Scanner) : Nat → Scanner
  | 0 => scanner.edit (schedule 0)
  | call + 1 => (scanner.reached schedule call).next.2.edit (schedule (call + 1))

/-- The reply to a call. -/
def replyAt (schedule : Schedule) (scanner : Scanner) (call : Nat) : Option Reply :=
  (scanner.reached schedule call).next.1

end Scanner

/-- The lexer after some calls. -/
def Lexer.after (lexer : Lexer) : Nat → Lexer
  | 0 => lexer
  | calls + 1 => (lexer.after calls).next.2

/-- The name that a token carries, if it is a word but no keyword. -/
def Token.name? : Token → Option String
  | .identifier name | .typeName name | .constant name => some name
  | _ => none

/-- Two tokens are equal, or are the same name in two classes. -/
def Token.Alike (token other : Token) : Prop :=
  token = other ∨ ∃ name, token.name? = some name ∧ other.name? = some name

/-- Two replies are both missing, or the same error at the same place, or
tokens at the same place that differ in the class of a name at most. -/
inductive Lexer.RepliesAlike : Option Reply → Option Reply → Prop where
  | missing : RepliesAlike none none
  | error (error : Located LexError) :
    RepliesAlike (some (.error error)) (some (.error error))
  | token (span : Span) {token other : Token} (h : token.Alike other) :
      RepliesAlike (some (.ok ⟨span, token⟩)) (some (.ok ⟨span, other⟩))

/-- Two tables give a lexeme the same token, or two classes of its name. -/
theorem Symbols.classify_alike (symbols other : Symbols) (lexeme : Lexeme) :
    (symbols.classify lexeme).Alike (other.classify lexeme) := by
  cases lexeme with
  | word name =>
    have hname : ∀ symbols : Symbols, (symbols.classify (.word name)).name? = some name := by
      intro symbols
      rw [classify]
      split <;> rfl
    exact .inr ⟨name, hname symbols, hname other⟩
  | literal text => exact .inl rfl
  | keyword keyword => exact .inl rfl
  | mark mark => exact .inl rfl

theorem Symbols.reply_alike (symbols other : Symbols) (result : Option Result) :
    RepliesAlike (result.map symbols.reply) (result.map other.reply) := by
  cases result with
  | none => exact .missing
  | some result =>
    cases result with
    | error error => exact .error error
    | ok lexeme => exact .token lexeme.span (symbols.classify_alike other lexeme.value)

namespace Scanner

/-- A change of the table moves nothing. -/
theorem Follows.edit {scanner lexer} (h : Follows scanner lexer) (edits : List Edit) :
    Follows (scanner.edit edits) lexer := by
  cases h with
  | reading start here rest symbols => exact .reading start here rest _
  | halted start here rest symbols => exact .halted start here rest _

/-- At every call, whatever changes were made, the scanner stands where the
lexer does after as many calls.  No call changes the table. -/
theorem follows_reached (source : Source) (symbols : Symbols) (schedule : Schedule)
    (call : Nat) :
    Follows ((ofSource source symbols).reached schedule call)
      ((Lexer.ofSource source).after call) ∧
      Lined ((ofSource source symbols).reached schedule call).rest ∧
      ((ofSource source symbols).reached schedule call).symbols =
        schedule.table symbols call := by
  induction call with
  | zero => exact ⟨.reading .first .first source.items _, source.lined_items, rfl⟩
  | succ call ih =>
    obtain ⟨hfollows, hlined, hsymbols⟩ := ih
    obtain ⟨hagrees, hrest⟩ := hfollows.next hlined
    refine ⟨hagrees.follows.edit _, hrest, ?_⟩
    rw [reached, edit, Schedule.table, ← hsymbols, hagrees.symbols]

/-- **Each reply is that of the lexer**, in the light of the table at that
call. -/
theorem replyAt_eq (source : Source) (symbols : Symbols) (schedule : Schedule) (call : Nat) :
    (ofSource source symbols).replyAt schedule call =
      ((Lexer.ofSource source).after call).next.1.map
        (schedule.table symbols call).reply := by
  obtain ⟨hfollows, hlined, hsymbols⟩ := follows_reached source symbols schedule call
  rw [← hsymbols]
  exact (hfollows.next hlined).1.reply

/-- **The table has a say in the classes of names only.**  Two scanners go
over the same bytes, with any tables and any changes of them between the
calls.  Each call has no reply in both, the same error at the same place, or
tokens at the same place that are equal or are the same name in two classes.
What is answered is what the lexer gives, which has no table, in the light
of the table at that call. -/
theorem replyAt_alike (name : String) (bytes : List UInt8) (first second : Symbols)
    (schedule other : Schedule) (call : Nat) :
    Lexer.RepliesAlike ((ofSource (.ofBytes name bytes) first).replyAt schedule call)
        ((ofSource (.ofBytes name bytes) second).replyAt other call) ∧
      (ofSource (.ofBytes name bytes) first).replyAt schedule call =
        ((Lexer.ofSource (.ofBytes name bytes)).after call).next.1.map
          (schedule.table first call).reply := by
  refine ⟨?_, replyAt_eq _ first schedule call⟩
  rw [replyAt_eq _ first schedule call, replyAt_eq _ second other call]
  exact Symbols.reply_alike _ _ _

end Scanner
end Xdr
