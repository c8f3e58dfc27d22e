import Xdr.Decl.Reader
import Xdr.Proofs.Decl.Correspondence
import Xdr.Proofs.Token.Exhaustion

/-!
# Reading on demand

A reader pulls tokens from the scanner as the parser asks for them, and each
token is judged by the names known at that moment.  A cursor goes over
lexemes that were all read before.  The parser does the same on both: the
reader stands where the cursor does, with the lexical errors met so far set
aside, and it never loses one or meets one twice.

## Main Statements

* `Reader.Follows.pull` — a pulled token is the next lexeme, and the errors
  before it are set aside
* `Reader.bridge` — a reader and a cursor over the lexemes of its source
* `Decl.errors_of_stop`, `Decl.errors_of_end` — wherever the parser stops,
  no error is missing
* `Decl.parse_eq_report` — a source is reported for its lexical errors, or
  parsed as its lexemes are

## Design Notes

Where the reader stands is told by a lexer, which has no table.
`Reader.Follows` says that the errors set aside, together with those that
the lexer would still meet, are all the errors there are; this is kept by
every call, whatever happens to the table in between.
-/

namespace Xdr

open Lexer Nat Reader Source Xdr.Parser

namespace Reader

variable {errors : List (Located LexError)} {lexer : Lexer} {reader : Reader}

/-- The scanner stands where the lexer does, and the errors met and those to
come are `errors`. -/
structure Follows (errors : List (Located LexError)) (lexer : Lexer)
    (reader : Reader) : Prop where
  scanner : reader.scanner.Follows lexer
  lined : Lined reader.scanner.rest
  errors : reader.errors ++ Lexer.errors lexer.results = errors

theorem Follows.ofSource (source : Source) (symbols : Symbols) :
    (ofSource source symbols).Follows (Lexer.errors (Lexer.ofSource source).results)
      (Lexer.ofSource source) where
  scanner := .ofSource source symbols
  lined := lined_items source
  errors := rfl

/-- The token that is kept and the place of the last one do not matter. -/
theorem Follows.congr {other : Reader} (h : reader.Follows errors lexer)
    (hscanner : other.scanner = reader.scanner) (herrors : other.errors = reader.errors) :
    other.Follows errors lexer := by
  constructor
  · exact hscanner ▸ h.scanner
  · exact hscanner ▸ h.lined
  · exact herrors ▸ h.errors

/-- Where the reader follows the lexer, the scanner has the errors to come. -/
theorem Follows.faults (h : reader.Follows errors lexer) :
    reader.errors ++ reader.scanner.faults = errors := by
  rw [h.scanner.faults h.lined, h.errors]

/-- What pulling a token may lead to: the end, or the token of the next
lexeme.  The errors before it are set aside, and nothing else changes. -/
inductive Pulled (errors : List (Located LexError)) (lexer : Lexer) (reader : Reader) :
    Option (Located Token) × Reader → Prop where
  | stop {scanner : Scanner} {met} {last : Lexer}
      (hlexemes : lexemes lexer.results = []) (hlast : last.results = [])
      (hsymbols : scanner.symbols = reader.scanner.symbols)
      (h : Follows errors last { reader with scanner := scanner, errors := met }) :
      Pulled errors lexer reader (none, { reader with scanner := scanner, errors := met })
  | token {scanner : Scanner} {met lexeme} {after : Lexer}
      (hlexemes : lexemes lexer.results = lexeme :: lexemes after.results)
      (hsymbols : scanner.symbols = reader.scanner.symbols)
      (h : Follows errors after { reader with scanner := scanner, errors := met }) :
      Pulled errors lexer reader
        (some ⟨lexeme.span, reader.scanner.symbols.classify lexeme.value⟩,
          { reader with scanner := scanner, errors := met })

theorem Follows.pullWithin (h : reader.Follows errors lexer) {limit}
    (hlimit : lexer.rest.length < limit) :
    Pulled errors lexer reader (reader.pullWithin limit) := by
  -- Each error takes an item, so the limit is not reached.
  induction limit generalizing reader lexer with
  | zero => exact absurd hlimit (not_lt_zero _)
  | succ limit ih =>
    obtain ⟨hscanner, hlined, herrors⟩ := h
    rcases hnext : lexer.next with ⟨_ | result, after⟩
    · obtain ⟨scanner, hreply, hfollows, hrest, hsymbols⟩ :=
        hscanner.next_of_none hlined hnext
      have hend := results_eq_nil_of_next hnext
      rw [results_of_next_eq_none hnext] at herrors
      rw [pullWithin, hreply]
      refine .stop ?_ hend hsymbols ⟨hfollows, hrest, ?_⟩
      · rw [results_of_next_eq_none hnext]
        rfl
      · rw [hend]
        exact herrors
    · obtain ⟨scanner, hreply, hfollows, hrest, hsymbols⟩ :=
        hscanner.next_of_some hlined hnext
      have hshorter := length_next_lt hnext
      rw [results_of_next hnext] at herrors
      rw [pullWithin, hreply]
      cases result with
      | ok lexeme =>
        refine .token ?_ hsymbols ⟨hfollows, hrest, herrors⟩
        rw [results_of_next hnext]
        rfl
      | error error =>
        have hset : Follows errors after
            { reader with scanner := scanner, errors := reader.errors ++ [error] } := by
          refine ⟨hfollows, hrest, ?_⟩
          rw [← herrors, List.append_assoc]
          rfl
        have hlexemes : lexemes lexer.results = lexemes after.results := by
          rw [results_of_next hnext]
          rfl
        have hpulled := ih hset (by omega)
        change Pulled errors lexer reader (pullWithin limit
          { reader with scanner := scanner, errors := reader.errors ++ [error] })
        generalize pullWithin limit
          { reader with scanner := scanner, errors := reader.errors ++ [error] } = pulled
          at hpulled ⊢
        cases hpulled with
        | stop hnone hlast hsymbols' h =>
          exact .stop (hlexemes.trans hnone) hlast (hsymbols'.trans hsymbols) h
        | token hsome hsymbols' h =>
          change scanner.symbols = _ at hsymbols
          have htoken := Pulled.token (hlexemes.trans hsome) (hsymbols'.trans hsymbols) h
          rwa [← hsymbols] at htoken

/-- **A pulled token is the next lexeme**, and the errors before it are set
aside. -/
theorem Follows.pull (h : reader.Follows errors lexer) :
    Pulled errors lexer reader reader.pull :=
  h.pullWithin (lt_succ_of_le h.scanner.length_rest_le)

theorem Follows.drainWithin (h : reader.Follows errors lexer) {limit}
    (hlimit : (lexemes lexer.results).length < limit) :
    (reader.drainWithin limit).errors = errors := by
  induction limit generalizing reader lexer with
  | zero => exact absurd hlimit (not_lt_zero _)
  | succ limit ih =>
    rw [drainWithin]
    have hpulled := h.pull
    generalize reader.pull = pulled at hpulled ⊢
    cases hpulled with
    | stop _ hlast _ h =>
      have herrors := h.errors
      rwa [hlast, errors_nil, List.append_nil] at herrors
    | token hlexemes _ h =>
      rw [hlexemes, List.length_cons] at hlimit
      exact ih h (by omega)

/-- **Draining a reader** brings up all errors to the end. -/
theorem Follows.drain (h : reader.Follows errors lexer) : reader.drain.errors = errors :=
  h.drainWithin (lt_succ_of_le
    ((length_lexemes_results_le lexer).trans h.scanner.length_rest_le))

theorem Follows.know (h : reader.Follows errors lexer) (symbols : Symbols) :
    (reader.know symbols).Follows errors lexer :=
  ⟨h.scanner.know symbols, h.lined, h.errors⟩

/-! ### Readers and cursors -/

/-- A reader stands where a cursor does.  It has not looked at a token, or
it keeps the one it has looked at with the class that it had then, or it has
seen the end. -/
inductive At (errors : List (Located LexError)) :
    Point → Cursor → Reader → Prop where
  | fresh {lexer : Lexer} {reader : Reader} (h : reader.Follows errors lexer)
      (hpeeked : reader.peeked = none) :
      At errors ⟨reader.scanner.symbols, true⟩
        ⟨lexemes lexer.results, reader.scanner.symbols, reader.last⟩ reader
  | kept {lexer : Lexer} {reader : Reader} {lexeme : Located Lexeme}
      (h : reader.Follows errors lexer)
      (hpeeked : reader.peeked =
        some ⟨lexeme.span, reader.scanner.symbols.classify lexeme.value⟩) :
      At errors ⟨reader.scanner.symbols, false⟩
        ⟨lexeme :: lexemes lexer.results, reader.scanner.symbols, reader.last⟩ reader
  | ended {lexer : Lexer} {reader : Reader} (h : reader.Follows errors lexer)
      (hend : lexer.results = []) (hpeeked : reader.peeked = none) :
      At errors ⟨reader.scanner.symbols, false⟩ ⟨[], reader.scanner.symbols,
        reader.last⟩ reader

theorem At.follows {point cursor} (h : At errors point cursor reader) :
    ∃ lexer, reader.Follows errors lexer := by
  cases h with
  | fresh h | kept h | ended h => exact ⟨_, h⟩

/-- A failure of the parser is the same, and no error is lost where it
stopped. -/
def Stopped (errors : List (Located LexError)) (error : Located SyntaxError)
    (stop : Stop) : Prop :=
  stop.1 = error ∧ ∃ lexer, stop.2.Follows errors lexer

theorem At.stopped {point cursor} (h : At errors point cursor reader)
    (error : Located SyntaxError) : Stopped errors error (error, reader) :=
  ⟨rfl, h.follows⟩

section Pull

variable (h : reader.Follows errors lexer) (hpeeked : reader.peeked = none)
include h hpeeked

/-- A reader that keeps no token looks at the next lexeme. -/
theorem Follows.peek :
    ∃ after, reader.peek = ((Cursor.mk (lexemes lexer.results)
        reader.scanner.symbols reader.last).peek, after) ∧
      At errors ⟨reader.scanner.symbols, false⟩
        ⟨lexemes lexer.results, reader.scanner.symbols, reader.last⟩ after := by
  have hpulled := h.pull
  rw [Reader.peek, hpeeked]
  generalize reader.pull = pulled at hpulled ⊢
  cases hpulled with
  | @stop scanner met last hlexemes hlast hsymbols h =>
    have hafter : Follows errors last ⟨scanner, none, reader.last, met⟩ := h.congr rfl rfl
    rw [hlexemes, ← hsymbols]
    exact ⟨_, rfl, .ended hafter hlast rfl⟩
  | @token scanner met lexeme after hlexemes hsymbols h =>
    have hafter : Follows errors after
        ⟨scanner, some ⟨lexeme.span, scanner.symbols.classify lexeme.value⟩,
          reader.last, met⟩ :=
      h.congr rfl rfl
    rw [hlexemes, ← hsymbols]
    exact ⟨_, rfl, .kept hafter rfl⟩

/-- A reader that keeps no token reads the next lexeme. -/
theorem Follows.next :
    Outcomes (At errors) (Stopped errors)
      (SameToken Eq reader.scanner.symbols)
      (Cursor.mk (lexemes lexer.results) reader.scanner.symbols reader.last).next
      reader.next := by
  have hpulled := h.pull
  rw [Reader.next, Reader.take, hpeeked]
  generalize reader.pull = pulled at hpulled ⊢
  cases hpulled with
  | stop hlexemes hlast hsymbols h =>
    rw [hlexemes]
    exact .error ⟨rfl, _, h⟩
  | @token scanner met lexeme after hlexemes hsymbols h =>
    have hafter : Follows errors after ⟨scanner, reader.peeked, lexeme.span, met⟩ :=
      h.congr rfl rfl
    rw [hlexemes, ← hsymbols]
    exact .ok ⟨⟨rfl, rfl⟩, ⟨_, rfl⟩, rfl⟩ (.fresh hafter hpeeked)

end Pull

section PlainEnd

variable {α : Type} {name : Located String} {known : Symbols}
  (hname : reader.scanner.symbols.classOf? name.value = none)
  (hknown : known = { reader.scanner.symbols with
    classes := reader.scanner.symbols.classes.insert name.value .type })
  (value : α)
include hname hknown

/-- The end of a type definition makes its name known and then reads a
semicolon. -/
theorem plainEnd_eq :
    plainEnd name value reader =
      (expect (.mark .semicolon) >>= fun _ => pure value : Rule Reader Stop α)
        (reader.know known) := by
  have hregister : (register name : Rule Reader Stop Unit) reader = _ :=
    register_of_new rfl hname
  change ((register name : Rule Reader Stop Unit) reader >>= _) = _
  rw [hregister, hknown]
  rfl

/-- The token that was kept is judged as it was when it was looked at. -/
theorem plainEnd_of_peeked {token} (hpeeked : reader.peeked = some token) :
    plainEnd name value reader =
      if token.value = .mark .semicolon then
        .ok (value, ⟨(reader.know known).scanner, none, token.span, reader.errors⟩)
      else
        .error (⟨token.span, .unexpected (.mark .semicolon) token.value⟩,
          ⟨(reader.know known).scanner, none, token.span, reader.errors⟩) := by
  have hnext : (reader.know known).next =
      .ok (token, ⟨(reader.know known).scanner, none, token.span, reader.errors⟩) := by
    simp only [next, take, know, hpeeked]
  rw [plainEnd_eq hname hknown]
  change (expect _ (reader.know known) >>= _) = _
  rw [expect_of_next hnext]
  split <;> rfl

end PlainEnd

/-- A type definition without a suffix ends alike on both.  The cursor
judges the token after it before the name becomes known, and the reader
finds it wrong afterwards. -/
theorem At.plainEnd {point cursor} {α : Type} {name name' : Located String}
    (h : At errors point cursor reader) (hfresh : point.fresh = false)
    (hsame : name.value = name'.value) (hnone : point.symbols.classOf? name.value = none)
    (value : α) :
    Outcomes (At errors) (Stopped errors) SameValue
      (plainEnd name value cursor) (plainEnd name' value reader) := by
  change Outcomes _ _ _
    ((Parser.plainEnd name value : Parser.Rule (Parser.Refusing .redeclared) _ _) cursor) _
  cases h with
  | fresh => cases hfresh
  | @kept lexer _ lexeme h hpeeked =>
    obtain ⟨span, found⟩ := lexeme
    have hafter : ∀ known, Follows errors lexer
        ⟨(reader.know known).scanner, none, span, reader.errors⟩ :=
      fun known => (h.know known).congr rfl rfl
    rw [plainEnd_of_peeked (hsame ▸ hnone) rfl value hpeeked]
    by_cases hfound : found = .mark .semicolon
    · subst hfound
      rw [plainEnd_semicolon _ _ _ hnone, hsame]
      exact .ok rfl (.fresh (hafter _) rfl)
    · have hne : reader.scanner.symbols.classify found ≠ .mark .semicolon :=
        mt Symbols.classify_eq_mark.mp hfound
      rw [plainEnd_of_ne _ _ _ hne, if_neg hne]
      exact .error ⟨rfl, _, hafter _⟩
  | @ended lexer _ h hend hpeeked =>
    rw [plainEnd_nil _ _ hnone, plainEnd_eq (hsame ▸ hnone) rfl]
    have hnext := (h.know { reader.scanner.symbols with
      classes := reader.scanner.symbols.classes.insert name'.value .type }).next hpeeked
    rw [hend] at hnext
    change Outcomes _ _ _ _ ((next (reader.know _) >>= _) >>= _)
    generalize next (reader.know _) = outcome at hnext ⊢
    cases hnext with
    | error herror => exact .error herror

/-- **The bridge** from a cursor over the lexemes of a source to a reader of
the source. -/
def bridge (errors : List (Located LexError)) : Bridge Reader Stop where
  State := At errors
  Failure := Stopped errors
  Place := Eq
  symbols_eq h := by
    cases h <;> exact ⟨rfl, rfl⟩
  length_le h := by
    have hle : ∀ {lexer reader}, Follows errors lexer reader →
        (lexemes lexer.results).length ≤ reader.scanner.rest.length :=
      fun h => (length_lexemes_results_le _).trans h.scanner.length_rest_le
    cases h with
    | fresh h => exact le_succ_of_le (hle h)
    | kept h => exact succ_le_succ (hle h)
    | ended h => exact zero_le _
  know symbols h hfresh := by
    cases h with
    | fresh h hpeeked => exact .fresh (h.know symbols) hpeeked
    | kept | ended => cases hfresh
  peek h := by
    cases h with
    | fresh h hpeeked =>
      obtain ⟨after, hpeek, hat⟩ := h.peek hpeeked
      exact ⟨after, congrArg Except.ok hpeek, hat⟩
    | @kept _ _ _ h hpeeked =>
      refine ⟨_, congrArg Except.ok ?_, .kept h hpeeked⟩
      rw [peek, hpeeked]
      rfl
    | ended h hend hpeeked =>
      obtain ⟨after, hpeek, hat⟩ := h.peek hpeeked
      rw [hend] at hpeek hat
      exact ⟨after, congrArg Except.ok hpeek, hat⟩
  next {_ _ reader} h := by
    cases h with
    | fresh h hpeeked => exact h.next hpeeked
    | @kept lexer _ lexeme h hpeeked =>
      have hafter : Follows errors lexer ⟨reader.scanner, none, lexeme.span, reader.errors⟩ :=
        h.congr rfl rfl
      change Outcomes _ _ _ _ reader.next
      rw [next, take, hpeeked]
      exact .ok ⟨⟨rfl, rfl⟩, ⟨_, rfl⟩, rfl⟩ (.fresh hafter rfl)
    | ended h hend hpeeked =>
      have hnext := h.next hpeeked
      rw [hend] at hnext
      exact hnext
  failure h _ := by
    cases h with
    | fresh h | kept h | ended h => exact ⟨rfl, _, h⟩
  known name h hspan := by
    subst hspan
    exact h.stopped _
  plainEnd value h hfresh hsame hnone := h.plainEnd hfresh hsame hnone value

end Reader

namespace Decl

open Reader

variable {symbols : Symbols} {source : Source}

/-- How the parser may end on a source: with the declarations of its
lexemes, and then all lexical errors are set aside; or with their syntax
error, and then none is lost. -/
inductive Reached (symbols : Symbols) (source : Source) : Prop where
  | ok {decls stop reader}
      (hcursor : file (Cursor.mk (Lexer.lexemes (Lexer.ofSource source).results)
        symbols (.single .first)) = .ok (decls, stop))
      (hreader : file (ofSource source symbols) = .ok (decls, reader))
      (hsymbols : reader.scanner.symbols = stop.symbols)
      (herrors : reader.errors = Lexer.errors (Lexer.ofSource source).results)
      (hfaults : reader.scanner.faults = [])
  | error {error reader lexer}
      (hcursor : file (Cursor.mk (Lexer.lexemes (Lexer.ofSource source).results)
        symbols (.single .first)) = .error error)
      (hreader : file (ofSource source symbols) = .error (error, reader))
      (h : reader.Follows (Lexer.errors (Lexer.ofSource source).results) lexer)

/-- **The parser does the same on a reader** as on a cursor over the lexemes
of the same source. -/
theorem reached (symbols : Symbols) (source : Source) : Reached symbols source := by
  have houtcomes : Outcomes (At (Lexer.errors (Lexer.ofSource source).results)) (Stopped _)
      (fun decls decls' after => decls = decls' ∧ after.fresh = false)
      (file (Cursor.mk (Lexer.lexemes (Lexer.ofSource source).results) symbols
        (.single .first)))
      (file (ofSource source symbols)) :=
    @Parser.corresponds_file _ _ _ _ _ (bridge _) _ _ (.fresh (.ofSource source symbols) rfl)
  generalize hcursor : file (Cursor.mk
    (Lexer.lexemes (Lexer.ofSource source).results) symbols (.single .first)) = outcome,
    hreader : file (ofSource source symbols) = outcome' at houtcomes
  cases houtcomes with
  | ok hvalue hstop =>
    obtain ⟨rfl, hfresh⟩ := hvalue
    have hrest := (file_eq_ok.mp hcursor).rest_eq_nil
    -- The parser has looked for another token and has seen the end.
    cases hstop with
    | fresh => cases hfresh
    | kept => cases hrest
    | @ended lexer _ h hend _ =>
      have herrors := h.errors
      have hfaults := h.scanner.faults h.lined
      rw [hend, Lexer.errors_nil] at hfaults
      rw [hend, Lexer.errors_nil, List.append_nil] at herrors
      exact .ok hcursor hreader rfl herrors hfaults
  | @error error stop herror =>
    obtain ⟨found, reader⟩ := stop
    obtain ⟨rfl, lexer, h⟩ := herror
    exact .error hcursor hreader h

/-- **A source is reported for its lexical errors, or parsed as its lexemes
are.**  Reading tokens on demand makes no difference to the outcome. -/
theorem parse_eq_report (symbols : Symbols) (source : Source) :
    parse symbols source = report (Lexer.errors (Lexer.ofSource source).results)
      (ofLexemes symbols (Lexer.lexemes (Lexer.ofSource source).results)) := by
  rw [parse, ofLexemes]
  cases reached symbols source with
  | ok hcursor hreader hsymbols herrors _ =>
    rw [hcursor, hreader]
    dsimp only
    rw [herrors, hsymbols]
    rfl
  | error hcursor hreader h =>
    rw [hcursor, hreader]
    dsimp only
    rw [h.drain]
    rfl

theorem parse_of_errors_eq_nil (h : Lexer.errors (Lexer.ofSource source).results = []) :
    parse symbols source =
      (ofLexemes symbols (Lexer.lexemes (Lexer.ofSource source).results)).mapError
        .syntactic := by
  rw [parse_eq_report, h]
  rfl

theorem exists_parsed {decls}
    (h : (parse symbols source).toOption.map Parsed.decls = some decls) :
    ∃ parsed, parse symbols source = .ok parsed ∧ parsed.decls = decls := by
  cases hparse : parse symbols source with
  | error failure =>
    rw [hparse] at h
    cases h
  | ok parsed =>
    rw [hparse] at h
    exact ⟨parsed, rfl, Option.some.inj h⟩

theorem parse_eq_ok {parsed} :
    parse symbols source = .ok parsed ↔
      Lexer.errors (Lexer.ofSource source).results = [] ∧
        ofLexemes symbols (Lexer.lexemes (Lexer.ofSource source).results) = .ok parsed := by
  rw [parse_eq_report]
  cases Lexer.errors (Lexer.ofSource source).results with
  | nil =>
    cases ofLexemes symbols (Lexer.lexemes (Lexer.ofSource source).results) <;>
      simp [report, Except.mapError]
  | cons error errors => simp [report]

open Grammar in
/-- **The parser accepts exactly the grammar.**  A source has these
declarations if and only if it has no lexical errors and its lexemes are a
file of them, in which each statement is classified by the names known
before it.  The names known then are those of the declarations. -/
theorem parse_eq_ok_iff_file (symbols : Symbols) (source : Source) (parsed : Parsed) :
    parse symbols source = .ok parsed ↔
      Lexer.errors (Lexer.ofSource source).results = [] ∧
      File symbols parsed.decls
        ((Lexer.lexemes (Lexer.ofSource source).results).map Located.value) ∧
      parsed.symbols = parsed.decls.foldl Symbols.after symbols := by
  rw [parse_eq_ok, ofLexemes_eq_ok]

end Decl
end Xdr
