import Xdr.Proofs.Token.Scanner

/-!
# Reading to the end

Every call of the lexer that has a result takes at least one item, also
where a line cannot be read.  So calling it until there is no result ends,
and no limit on the number of calls matters that is above the number of
items.

## Main Statements

* `Lexer.ends_scan` — reading through a gap ends, and takes items
* `Lexer.length_next_lt` — a call with a result takes an item
* `Lexer.results_of_next` — the results are that of the first call and those
  of the calls after it
* `Scanner.Follows.exhaust_eq_error` — exhausting a scanner reports the
  errors of the lexer
* `Lexer.check_of_mem_lexemes` — every literal among the lexemes of a source
  has passed the check
-/

namespace Xdr

open Lexer Nat Numeral

namespace Lexer

variable {lexer after : Lexer} {result : Result}

/-! ### Progress -/

theorem length_run_le (p : Char → Bool) (here : Position) (items : List Item) :
    (run p here items).2.2.length ≤ items.length := by
  induction items generalizing here with
  | nil => exact le_refl _
  | cons item items ih =>
    cases item with
    | unreadable => exact le_refl _
    | char c next =>
      rw [run]
      split
      · exact le_succ_of_le (ih next)
      · exact le_refl _

theorem length_digits_le (first : Char) (here : Position) (items : List Item) :
    (digits first here items).2.2.length ≤ items.length := by
  unfold digits
  split
  · split
    · exact le_succ_of_le (length_run_le _ _ _)
    · exact length_run_le _ _ _
  · exact le_refl _

/-- A lexeme leaves no more than stood after its first character. -/
theorem length_lexeme_le (c : Char) (here next : Position) (rest : List Item) :
    (lexeme c here next rest).2.rest.length ≤ rest.length := by
  unfold lexeme
  split
  · exact length_run_le _ _ _
  · split
    · exact length_digits_le _ _ _
    · split
      · split
        · split
          · exact le_succ_of_le (length_digits_le _ _ _)
          · exact le_refl _
        · exact le_refl _
      · split <;> exact le_refl _

/-- How many items a gap has taken that the lexeme after it does not count. -/
def Gap.begun : Gap → Nat
  | .blank => 0
  | _ => 1

theorem Gap.begun_le (gap : Gap) : gap.begun ≤ 1 := by
  cases gap <;> decide

/-- The ways in which reading through a gap ends: with the source, with an
error in the gap, or with the lexeme after it.  Fewer than `bound` items are
left. -/
inductive Ends (bound : Nat) (outcome : Option Result × Lexer) : Prop where
  | stop {last} (h : outcome = (none, ⟨last, last, []⟩))
  | error {error after} (h : outcome = (some (.error error), after))
      (hlength : after.rest.length < bound)
  | lexeme {c here next rest} (h : outcome = lexeme c here next rest)
      (hlength : rest.length < bound)

theorem Ends.mono {bound bound' outcome} (h : Ends bound outcome) (hle : bound ≤ bound') :
    Ends bound' outcome := by
  cases h with
  | stop h => exact .stop h
  | error h hlength => exact .error h (lt_of_lt_of_le hlength hle)
  | lexeme h hlength => exact .lexeme h (lt_of_lt_of_le hlength hle)

/-- Reading through a gap leaves fewer items, counted with the one that
began the gap. -/
theorem ends_scan (start here : Position) (gap : Gap) (items : List Item) :
    Ends (items.length + gap.begun) (scan start here gap items) := by
  induction items generalizing start here gap with
  | nil =>
    cases gap with
    | blank | line => exact .stop rfl
    | slash | block | star => exact .error rfl zero_lt_one
  | cons item items ih =>
    -- Whatever gap comes next, one item less is left.
    have hstep : ∀ start here gap',
        Ends ((item :: items).length + gap.begun) (scan start here gap' items) := by
      intro start here gap'
      refine (ih start here gap').mono ?_
      have hle := gap'.begun_le
      rw [List.length_cons]
      omega
    cases item with
    | unreadable =>
      have hscan : scan start here gap (.unreadable :: items) =
          (some (.error ⟨.single start, .unreadable⟩), ⟨start, start, []⟩) := by
        cases gap <;> rfl
      exact .error hscan (lt_of_lt_of_le (succ_pos _) (le_add_right _ _))
    | char c next =>
      cases gap with
      | blank =>
        rw [scan]
        split
        · exact hstep _ _ _
        · split
          · exact hstep _ _ _
          · split
            · exact hstep _ _ _
            · exact .lexeme rfl (lt_succ_self _)
      | slash =>
        rw [scan]
        split
        · exact hstep _ _ _
        · split
          · exact hstep _ _ _
          · exact .error rfl (lt_succ_self _)
      | line | block | star =>
        rw [scan]
        exact hstep _ _ _

theorem ends_next (lexer : Lexer) : Ends lexer.rest.length lexer.next :=
  ends_scan lexer.start lexer.here .blank lexer.rest

/-- **A call with a result takes an item.** -/
theorem length_next_lt (h : lexer.next = (some result, after)) :
    after.rest.length < lexer.rest.length := by
  cases lexer.ends_next with
  | stop hend => cases h.symm.trans hend
  | error herror hlength =>
    cases h.symm.trans herror
    exact hlength
  | @lexeme c here next rest hlexeme hlength =>
    have hle := length_lexeme_le c here next rest
    rw [← hlexeme, h] at hle
    exact lt_of_le_of_lt hle hlength

theorem isSome_lexeme (c : Char) (here next : Position) (rest : List Item) :
    (lexeme c here next rest).1.isSome = true := by
  unfold lexeme
  split
  · rfl
  · split
    · rfl
    · split
      · split
        · split <;> rfl
        · rfl
      · split <;> rfl

/-- A call has no result only at the end of the items. -/
theorem rest_of_next_eq_none (h : lexer.next = (none, after)) : after.rest = [] := by
  cases lexer.ends_next with
  | stop hend =>
    cases h.symm.trans hend
    rfl
  | error herror _ => cases h.symm.trans herror
  | @lexeme c here next rest hlexeme _ =>
    have hsome := isSome_lexeme c here next rest
    rw [← hlexeme, h] at hsome
    cases hsome

/-- At the end of the source a further call has no result either. -/
theorem results_eq_nil_of_next (h : lexer.next = (none, after)) : after.results = [] := by
  have hrest := rest_of_next_eq_none h
  have hnext : after.next = (none, ⟨after.here, after.here, []⟩) := by
    rw [next, hrest]
    rfl
  rw [results, drain, collect, hnext]

/-! ### The results -/

section Kinds

variable (results : List Result)

@[simp] theorem errors_nil : errors [] = [] := rfl

@[simp] theorem errors_cons_ok (lexeme : Located Lexeme) :
    errors (.ok lexeme :: results) = errors results := rfl

@[simp] theorem errors_cons_error (error : Located LexError) :
    errors (.error error :: results) = error :: errors results := rfl

@[simp] theorem lexemes_nil : lexemes [] = [] := rfl

@[simp] theorem lexemes_cons_ok (lexeme : Located Lexeme) :
    lexemes (.ok lexeme :: results) = lexeme :: lexemes results := rfl

@[simp] theorem lexemes_cons_error (error : Located LexError) :
    lexemes (.error error :: results) = lexemes results := rfl

end Kinds

/-- A limit above the number of items does not matter. -/
theorem collect_congr {limit limit'} (hlimit : lexer.rest.length < limit)
    (hlimit' : lexer.rest.length < limit') : collect limit lexer = collect limit' lexer := by
  induction limit generalizing limit' lexer with
  | zero => exact absurd hlimit (not_lt_zero _)
  | succ limit ih =>
    cases limit' with
    | zero => exact absurd hlimit' (not_lt_zero _)
    | succ limit' =>
      rw [collect, collect]
      split
      · rfl
      · next result after hnext =>
        have hshorter := length_next_lt hnext
        rw [@ih after limit' (by omega) (by omega)]

theorem collect_succ_of_next (h : lexer.next = (some result, after)) (limit : Nat) :
    lexer.collect (limit + 1) = (result :: (after.collect limit).1,
      (after.collect limit).2) := by
  rw [collect, h]

theorem results_of_next_eq_none (h : lexer.next = (none, after)) : lexer.results = [] := by
  rw [results, drain, collect, h]

/-- The results are that of the first call and those of the calls after it. -/
theorem results_of_next (h : lexer.next = (some result, after)) :
    lexer.results = result :: after.results := by
  have hshorter := length_next_lt h
  have hcollect : collect lexer.rest.length after = after.drain :=
    collect_congr hshorter (lt_succ_self _)
  rw [results, drain, collect_succ_of_next h, hcollect, results]

/-- Induction along the calls to the end. -/
theorem call_induction {motive : Lexer → Prop}
    (stop : ∀ lexer after, lexer.next = (none, after) → motive lexer)
    (call : ∀ lexer result after, lexer.next = (some result, after) → motive after →
      motive lexer)
    (lexer : Lexer) : motive lexer := by
  induction hlength : lexer.rest.length using Nat.strongRecOn generalizing lexer with
  | ind n ih =>
  subst hlength
  rcases hnext : lexer.next with ⟨_ | result, after⟩
  · exact stop lexer after hnext
  · exact call lexer result after hnext (ih _ (length_next_lt hnext) after rfl)

theorem length_lexemes_results_le (lexer : Lexer) :
    (lexemes lexer.results).length ≤ lexer.rest.length := by
  induction lexer using call_induction with
  | stop lexer after hnext =>
    rw [results_of_next_eq_none hnext]
    exact zero_le _
  | call lexer result after hnext ih =>
    have hshorter := length_next_lt hnext
    rw [results_of_next hnext]
    cases result with
    | ok lexeme =>
      rw [lexemes_cons_ok, List.length_cons]
      omega
    | error error =>
      rw [lexemes_cons_error]
      omega

/-! ### Literals among lexemes -/

variable {text : String} {span : Span}

theorem check_of_numeral {start stop digits rest}
    (h : (numeral start digits stop rest).1 = some (.ok ⟨span, .literal text⟩)) :
    check text.toList = none := by
  rw [numeral] at h
  dsimp only at h
  split at h
  · next hcheck =>
    cases h
    rwa [String.toList_ofList]
  · cases h
  · cases h

theorem wordLexeme_ne_literal (word : String) : wordLexeme word ≠ .literal text := by
  unfold wordLexeme
  split <;> exact Lexeme.noConfusion

theorem check_of_lexeme {c here next rest}
    (h : (lexeme c here next rest).1 = some (.ok ⟨span, .literal text⟩)) :
    check text.toList = none := by
  unfold lexeme at h
  split at h
  · injection h with h
    injection h with h
    injection h with _ h
    exact absurd h (wordLexeme_ne_literal _)
  · split at h
    · exact check_of_numeral h
    · split at h
      · split at h
        · split at h
          · exact check_of_numeral h
          · cases h
        · cases h
      · split at h <;> cases h

/-- A literal that a call yields has passed the check. -/
theorem check_of_next (h : lexer.next = (some (.ok ⟨span, .literal text⟩), after)) :
    check text.toList = none := by
  cases lexer.ends_next with
  | stop hend => cases h.symm.trans hend
  | error herror _ => cases h.symm.trans herror
  | lexeme hlexeme _ => exact check_of_lexeme (congrArg Prod.fst (hlexeme.symm.trans h))

/-- **Every literal has passed the check.** -/
theorem check_of_mem_lexemes (h : ⟨span, .literal text⟩ ∈ lexemes lexer.results) :
    check text.toList = none := by
  induction lexer using call_induction with
  | stop lexer after hnext =>
    rw [results_of_next_eq_none hnext] at h
    cases h
  | call lexer result after hnext ih =>
    rw [results_of_next hnext] at h
    cases result with
    | ok lexeme =>
      rw [lexemes_cons_ok, List.mem_cons] at h
      rcases h with rfl | hlater
      · exact check_of_next hnext
      · exact ih hlater
    | error error => exact ih h

end Lexer

/-! ### Scanners -/

namespace Scanner

open Source

variable {scanner : Scanner} {lexer : Lexer}

theorem Follows.ofSource (source : Source) (symbols : Symbols) :
    Follows (ofSource source symbols) (Lexer.ofSource source) :=
  .reading .first .first source.items symbols

theorem Follows.length_rest_le (h : Follows scanner lexer) :
    lexer.rest.length ≤ scanner.rest.length := by
  cases h with
  | reading start here rest symbols => exact le_refl _
  | halted start here rest symbols => exact zero_le _

/-- The table does not say where a scanner stands. -/
theorem Follows.know (h : Follows scanner lexer) (symbols : Symbols) :
    Follows { scanner with symbols := symbols } lexer := by
  cases h with
  | reading start here rest known => exact .reading ..
  | halted start here rest known => exact .halted ..

/-- A call of the scanner by what the lexer gives. -/
theorem Follows.next_of_none {after} (h : Follows scanner lexer) (hlined : Lined scanner.rest)
    (hnext : lexer.next = (none, after)) :
    ∃ scanner', scanner.next = (none, scanner') ∧ Follows scanner' after ∧
      Lined scanner'.rest ∧ scanner'.symbols = scanner.symbols := by
  obtain ⟨⟨hreply, hfollows, hsymbols⟩, hrest⟩ := h.next hlined
  rw [hnext] at hreply hfollows
  exact ⟨_, Prod.ext hreply rfl, hfollows, hrest, hsymbols⟩

theorem Follows.next_of_some {result after} (h : Follows scanner lexer)
    (hlined : Lined scanner.rest) (hnext : lexer.next = (some result, after)) :
    ∃ scanner', scanner.next = (some (scanner.symbols.reply result), scanner') ∧
      Follows scanner' after ∧ Lined scanner'.rest ∧ scanner'.symbols = scanner.symbols := by
  obtain ⟨⟨hreply, hfollows, hsymbols⟩, hrest⟩ := h.next hlined
  rw [hnext] at hreply hfollows
  exact ⟨_, Prod.ext hreply rfl, hfollows, hrest, hsymbols⟩

theorem Follows.collect (h : Follows scanner lexer) (hlined : Lined scanner.rest)
    (limit : Nat) :
    (scanner.collect limit).1 = (lexer.collect limit).1.map scanner.symbols.reply := by
  induction limit generalizing scanner lexer with
  | zero => rfl
  | succ limit ih =>
    rcases hnext : lexer.next with ⟨_ | result, after⟩
    · obtain ⟨scanner', hscanner, -⟩ := h.next_of_none hlined hnext
      rw [Scanner.collect, Lexer.collect, hscanner, hnext]
      rfl
    · obtain ⟨scanner', hscanner, hfollows, hrest, hsymbols⟩ := h.next_of_some hlined hnext
      rw [Scanner.collect, Lexer.collect, hscanner, hnext, ← hsymbols]
      exact congrArg _ (ih hfollows hrest)

/-- **All replies** are the results of the lexer, in the light of the table.
-/
theorem Follows.drain (h : Follows scanner lexer) (hlined : Lined scanner.rest) :
    scanner.drain.1 = lexer.results.map scanner.symbols.reply := by
  have hlimit := lt_succ_of_le h.length_rest_le
  rw [Scanner.drain, h.collect hlined, Lexer.results, Lexer.drain,
    collect_congr hlimit (lt_succ_self _)]

theorem drain_eq (source : Source) (symbols : Symbols) :
    (ofSource source symbols).drain.1 = (Lexer.ofSource source).results.map symbols.reply :=
  (Follows.ofSource source symbols).drain (lined_items source)

/-- The errors to the end are those of the lexer. -/
theorem Follows.faults (h : Follows scanner lexer) (hlined : Lined scanner.rest) :
    scanner.faults = errors lexer.results := by
  rw [Scanner.faults, h.drain hlined]
  generalize lexer.results = results
  induction results with
  | nil => rfl
  | cons result results ih =>
    cases result with
    | ok lexeme => exact ih
    | error error => exact congrArg (error :: ·) ih

/-- Exhausting a scanner reports all errors of the lexer, and has tokens
only if there is none. -/
theorem Follows.exhaust (h : Follows scanner lexer) (hlined : Lined scanner.rest) :
    scanner.exhaust = match errors lexer.results with
      | [] => .ok ((lexemes lexer.results).map fun lexeme =>
        ⟨lexeme.span, scanner.symbols.classify lexeme.value⟩)
      | faults => .error faults := by
  have hlimit : lexer.rest.length < scanner.rest.length + 1 := lt_succ_of_le h.length_rest_le
  rw [Scanner.exhaust]
  generalize scanner.rest.length + 1 = limit at hlimit
  -- A call takes an item of the lexer, so the limit is not reached.
  induction limit generalizing scanner lexer with
  | zero => exact absurd hlimit (not_lt_zero _)
  | succ limit ih =>
    rcases hnext : lexer.next with ⟨_ | result, after⟩
    · obtain ⟨scanner', hscanner, -⟩ := h.next_of_none hlined hnext
      rw [exhaustUpTo, hscanner, results_of_next_eq_none hnext]
      rfl
    · obtain ⟨scanner', hscanner, hfollows, hrest, hsymbols⟩ := h.next_of_some hlined hnext
      have hshorter := length_next_lt hnext
      rw [exhaustUpTo, hscanner, results_of_next hnext]
      cases result with
      | ok lexeme =>
        change (exhaustUpTo limit scanner').map _ = _
        rw [ih hfollows hrest (by omega), hsymbols, errors_cons_ok,
          lexemes_cons_ok]
        cases errors after.results <;> rfl
      | error error =>
        change Except.error (error :: scanner'.faults) = _
        rw [hfollows.faults hrest]
        rfl

theorem Follows.exhaust_eq_error {found} (h : Follows scanner lexer)
    (hlined : Lined scanner.rest) :
    scanner.exhaust = .error found ↔ errors lexer.results = found ∧ found ≠ [] := by
  rw [h.exhaust hlined]
  cases errors lexer.results with
  | nil =>
    refine iff_of_false nofun ?_
    rintro ⟨rfl, hne⟩
    exact hne rfl
  | cons error errors =>
    constructor
    · intro h
      cases h
      exact ⟨rfl, List.cons_ne_nil _ _⟩
    · rintro ⟨rfl, -⟩
      rfl

end Scanner
end Xdr
