import Mathlib.Data.List.Basic
import Xdr.Decl.Parser

/-!
# Recognition

What it means that a step of parsing reads exactly certain sequences of
tokens, and how that is derived along the step's definition.

A spelling is a predicate on a value, the tokens taken for it, and the
tokens left.  It may look at the tokens left because a step may: a type that
starts with `unsigned` ends where no width follows.

## Main Statements

* `Parser.Recognizes.bind`, `Parser.recognizes_eat_ite` — steps one after
  the other, and a choice
* `Parser.Repeatable.oneOrMore_eq_ok` — a repetition is not cut short by its
  limit
* `Parser.Repeatable.oneOrMore_eq` — a repetition is an item and then
  perhaps a repetition
-/

namespace Xdr

open List Symbols

/-- Lexemes as tokens. -/
def Symbols.tokens (symbols : Symbols) (lexemes : List (Located Lexeme)) : List Token :=
  lexemes.map fun lexeme => symbols.classify lexeme.value

namespace Symbols

variable {symbols : Symbols}

@[simp] theorem tokens_cons (lexeme : Located Lexeme) (lexemes : List (Located Lexeme)) :
    symbols.tokens (lexeme :: lexemes) = symbols.classify lexeme.value ::
      symbols.tokens lexemes := rfl

@[simp] theorem tokens_append (front back : List (Located Lexeme)) :
    symbols.tokens (front ++ back) = symbols.tokens front ++ symbols.tokens back :=
  map_append

theorem tokens_eq_nil {lexemes} : symbols.tokens lexemes = [] ↔ lexemes = [] :=
  map_eq_nil_iff

theorem tokens_eq_append {lexemes front back} :
    symbols.tokens lexemes = front ++ back ↔
      ∃ taken rest, lexemes = taken ++ rest ∧ symbols.tokens taken = front ∧
      symbols.tokens rest = back :=
  map_eq_append_iff

theorem tokens_eq_cons {lexemes token back} :
    symbols.tokens lexemes = token :: back ↔
      ∃ lexeme rest, lexemes = lexeme :: rest ∧ symbols.classify lexeme.value = token ∧
        symbols.tokens rest = back :=
  map_eq_cons_iff

theorem head?_tokens (lexemes : List (Located Lexeme)) :
    (symbols.tokens lexemes).head? = lexemes.head?.map fun lexeme =>
      symbols.classify lexeme.value :=
  head?_map ..

/-- A word is an identifier only if its name is not known. -/
theorem classify_eq_identifier {lexeme name}
    (h : symbols.classify lexeme = .identifier name) : symbols.classOf? name = none := by
  cases lexeme with
  | word other =>
    rw [classify] at h
    split at h
    · cases h
    · cases h
    · next hnone =>
      cases h
      exact hnone
  | literal _ | keyword _ | mark _ => cases h

theorem classify_eq_mark {lexeme mark} :
    symbols.classify lexeme = .mark mark ↔ lexeme = .mark mark := by
  cases lexeme with
  | word name =>
    rw [classify]
    split <;> simp
  | literal _ | keyword _ | mark _ => simp [classify]

end Symbols

namespace Parser

variable {α β : Type} {symbols : Symbols}

/-- Both steps of a sequence succeed. -/
theorem bind_eq_ok {step : Parse α} {next : α → Parse β} {cursor : Cursor}
    {result : β × Cursor} : (step >>= next) cursor = .ok result ↔
      ∃ value middle, step cursor = .ok (value, middle) ∧ next value middle = .ok result := by
  change (step cursor >>= fun found => next found.1 found.2) = .ok result ↔ _
  rcases step cursor with error | ⟨value, middle⟩
  · simp [bind, Except.bind]
  · simp [bind, Except.bind]

/-- Either step of a sequence fails. -/
theorem bind_eq_error {step : Parse α} {next : α → Parse β} {cursor : Cursor}
    {error : Located SyntaxError} :
    (step >>= next) cursor = .error error ↔
      step cursor = .error error ∨
        ∃ value middle,
        step cursor = .ok (value, middle) ∧ next value middle = .error error := by
  change (step cursor >>= fun found => next found.1 found.2) = .error error ↔ _
  rcases step cursor with error' | ⟨value, middle⟩
  · simp [bind, Except.bind]
  · simp [bind, Except.bind]

theorem bind_congr_of_ok {step : Parse α} {next next' : α → Parse β} {cursor : Cursor}
    (h : ∀ value middle, step cursor = .ok (value, middle) →
      next value middle = next' value middle) :
    (step >>= next) cursor = (step >>= next') cursor := by
  change (step cursor >>= fun found => next found.1 found.2) =
    (step cursor >>= fun found => next' found.1 found.2)
  cases hstep : step cursor with
  | error error => rfl
  | ok result => exact h result.1 result.2 hstep

/-! ### Recognition -/

/-- What a step takes to be a spelling of a value, given the tokens taken
and those left. -/
abbrev Spelling (α : Type) := α → List Token → List Token → Prop

/-- With the names of `symbols` known, the step succeeds exactly on the
spellings of its values.  The names of `after` are known then. -/
structure Recognizes (symbols : Symbols) (step : Parse α) (after : α → Symbols)
    (spelling : Spelling α) : Prop where
  sound : ∀ {lexemes last value cursor}, step ⟨lexemes, symbols, last⟩ = .ok (value, cursor) →
    ∃ taken, lexemes = taken ++ cursor.rest ∧ cursor.symbols = after value ∧
      spelling value (symbols.tokens taken) (symbols.tokens cursor.rest)
  complete : ∀ {taken rest last value},
    spelling value (symbols.tokens taken) (symbols.tokens rest) →
    ∃ last', step ⟨taken ++ rest, symbols, last⟩ = .ok (value, ⟨rest, after value, last'⟩)

/-- A step that recognizes spellings and makes no name known. -/
abbrev Reads (symbols : Symbols) (step : Parse α) (spelling : Spelling α) : Prop :=
  Recognizes symbols step (fun _ => symbols) spelling

variable {step item : Parse α} {spelling spelling' : Spelling α} {value : α} {values : List α}
    {more : Parse Bool} {start stop : Cursor}

namespace Recognizes

variable {after : α → Symbols} {spelling : Spelling α}

theorem congr (h : Recognizes symbols step after spelling)
    (hspelling : ∀ value taken rest, spelling value taken rest ↔ spelling' value taken rest) :
    Recognizes symbols step after spelling' where
  sound hok := by
    obtain ⟨taken, htaken, hafter, hspelled⟩ := h.sound hok
    exact ⟨taken, htaken, hafter, (hspelling ..).mp hspelled⟩
  complete hspelled := h.complete ((hspelling ..).mpr hspelled)

/-- Steps one after the other recognize spellings one after the other. -/
theorem bind {next : α → Parse β} {after : β → Symbols} {spelling' : α → Spelling β}
    (hstep : Reads symbols step spelling)
    (hnext : ∀ value, Recognizes symbols (next value) after (spelling' value)) :
    Recognizes symbols (step >>= next) after fun result taken rest =>
      ∃ value front back, taken = front ++ back ∧ spelling value front (back ++ rest) ∧
        spelling' value result back rest where
  sound hok := by
    obtain ⟨value, ⟨middle, known, last⟩, hvalue, hresult⟩ := bind_eq_ok.mp hok
    obtain ⟨front, rfl, hknown, hfront⟩ := hstep.sound hvalue
    -- The first step makes no name known, so both steps classify by the same table.
    obtain rfl : known = symbols := hknown
    obtain ⟨back, hback, hafter, hspelled⟩ := (hnext value).sound hresult
    dsimp only at hback hfront
    subst hback
    rw [tokens_append] at hfront
    exact ⟨front ++ back, (append_assoc ..).symm, hafter, value, _, _, tokens_append ..,
      hfront, hspelled⟩
  complete := by
    rintro taken rest last result ⟨value, front, back, htaken, hfront, hback⟩
    obtain ⟨taken, taken', rfl, rfl, rfl⟩ := tokens_eq_append.mp htaken
    rw [← tokens_append] at hfront
    obtain ⟨middle, hvalue⟩ := hstep.complete hfront
    obtain ⟨last', hresult⟩ := (hnext value).complete hback
    rw [append_assoc]
    exact ⟨last', bind_eq_ok.mpr ⟨value, _, hvalue, hresult⟩⟩

end Recognizes

/-- A step that takes nothing, always succeeds, and makes names known. -/
theorem recognizes_of_ok {after}
    (h : ∀ rest last, step ⟨rest, symbols, last⟩ = .ok (value, ⟨rest, after value, last⟩)) :
    Recognizes symbols step after fun found taken _ => found = value ∧ taken = [] where
  sound := by
    intro lexemes last found cursor hok
    rw [h] at hok
    cases hok
    exact ⟨[], rfl, rfl, rfl, rfl⟩
  complete := by
    rintro taken rest last found ⟨rfl, htaken⟩
    rw [tokens_eq_nil.mp htaken]
    exact ⟨last, h rest last⟩

theorem reads_pure (value : α) :
    Reads symbols (pure value) fun found taken _ => found = value ∧ taken = [] :=
  recognizes_of_ok fun _ _ => rfl

/-- A step that fails on every input recognizes nothing. -/
theorem recognizes_of_error (after : α → Symbols)
    (h : ∀ cursor, ∃ error, step cursor = .error error) :
    Recognizes symbols step after fun _ _ _ => False where
  sound := by
    intro lexemes last value cursor hok
    obtain ⟨error, herror⟩ := h ⟨lexemes, symbols, last⟩
    rw [herror] at hok
    cases hok
  complete hfalse := hfalse.elim

theorem recognizes_fail (error : SyntaxError) (after : α → Symbols) :
    Recognizes symbols (fail error) after fun _ _ _ => False :=
  recognizes_of_error after fun _ => ⟨_, rfl⟩

/-- A step whose value a function makes another of. -/
theorem Recognizes.mapTo {after : α → Symbols} {after' : β → Symbols}
    (h : Recognizes symbols step after spelling)
    (make : α → β) (hafter : ∀ value, after' (make value) = after value) :
    Recognizes symbols (step >>= fun value =>
      pure (make value)) after' fun result taken rest =>
      ∃ value, result = make value ∧ spelling value taken rest where
  sound hok := by
    obtain ⟨value, cursor, hvalue, hresult⟩ := bind_eq_ok.mp hok
    cases hresult
    obtain ⟨taken, htaken, hknown, hspelled⟩ := h.sound hvalue
    exact ⟨taken, htaken, hknown.trans (hafter value).symm, value, rfl, hspelled⟩
  complete := by
    rintro taken rest last _ ⟨value, rfl, hspelled⟩
    obtain ⟨last', hvalue⟩ := h.complete hspelled
    refine ⟨last', bind_eq_ok.mpr ⟨value, _, hvalue, ?_⟩⟩
    rw [hafter]
    rfl

theorem Recognizes.map {step spelling} (h : Reads symbols step spelling) (make : α → β) :
    Reads symbols (step >>= fun value => pure (make value)) fun result taken rest =>
      ∃ value, result = make value ∧ spelling value taken rest :=
  h.mapTo make fun _ => rfl

/-! ### Single tokens -/

theorem reads_peek : Reads symbols peek fun found taken rest =>
    found = rest.head? ∧ taken = [] where
  sound hok := by
    cases hok
    exact ⟨[], rfl, rfl, (head?_tokens _).symm, rfl⟩
  complete := by
    rintro taken rest last found ⟨rfl, htaken⟩
    rw [tokens_eq_nil.mp htaken, head?_tokens]
    exact ⟨last, rfl⟩

/-- A choice by what comes next. -/
theorem recognizes_peek_ite {test : Option Token → Bool} {yes no : Parse α}
    {after : α → Symbols}
    (hyes : Recognizes symbols yes after spelling)
    (hno : Recognizes symbols no after spelling') :
    Recognizes symbols (peek >>= fun found => if test found then yes else no) after
      fun value taken rest =>
        (test (taken ++ rest).head? = true ∧ spelling value taken rest) ∨
          (test (taken ++ rest).head? = false ∧ spelling' value taken rest) := by
  have h : ∀ found : Option Token, Recognizes symbols (if test found then yes else no) after
      fun value taken rest => (test found = true ∧ spelling value taken rest) ∨
        (test found = false ∧ spelling' value taken rest) := by
    intro found
    split
    · next htrue => exact hyes.congr fun _ _ _ => by simp [htrue]
    · next hfalse => exact hno.congr fun _ _ _ => by simp [hfalse]
  refine (reads_peek.bind h).congr fun value taken rest => ?_
  simp

/-- After any token, a step may go on by what it is. -/
theorem recognizes_next {step : Located Token → Parse α} {after : α → Symbols}
    {spelling : Token → Spelling α}
    (h : ∀ span token, (∃ lexeme, symbols.classify lexeme = token) →
      Recognizes symbols (step ⟨span, token⟩) after (spelling token)) :
    Recognizes symbols (next >>= step) after fun value taken rest =>
      ∃ token back, taken = token :: back ∧ spelling token value back rest where
  sound := by
    intro lexemes last value cursor hok
    cases lexemes with
    | nil => cases hok
    | cons lexeme lexemes =>
      obtain ⟨taken, htaken, hafter, hspelled⟩ :=
        (h lexeme.span _ ⟨lexeme.value, rfl⟩).sound hok
      exact ⟨lexeme :: taken, congrArg (lexeme :: ·) htaken, hafter, _, _, rfl, hspelled⟩
  complete := by
    rintro taken rest last value ⟨token, back, htaken, hspelled⟩
    obtain ⟨lexeme, taken, rfl, rfl, rfl⟩ := tokens_eq_cons.mp htaken
    exact (h lexeme.span _ ⟨lexeme.value, rfl⟩).complete hspelled

/-- What is read where a token is expected, whatever the tokens come from. -/
theorem expect_of_next {σ ε : Type} [TokenSource σ ε] {state after : σ}
    {found : Located Token} (h : next state = .ok (found, after)) (token : Token) :
    expect token state = if found.value = token then .ok ((), after)
      else .error (TokenSource.failure (.unexpected token found.value) after) := by
  change (next state >>= fun result : Located Token × σ =>
    ite (result.1.value = token) (pure ())
      (fail (.unexpected token result.1.value)) result.2) = _
  rw [h]
  change ite (found.value = token) (pure ()) (fail (.unexpected token found.value)) after = _
  split <;> rfl

theorem reads_expect (token : Token) :
    Reads symbols (expect token) fun _ taken _ => taken = [token] := by
  have h : ∀ found : Token,
      Reads symbols (if found = token then pure () else fail (.unexpected token found))
        fun _ taken _ => found = token ∧ taken = [] := by
    intro found
    split
    · next heq => exact (reads_pure ()).congr fun _ _ _ => by simp [heq]
    · next hne => exact (recognizes_fail _ _).congr fun _ _ _ => by simp [hne]
  refine (recognizes_next fun _ found _ => h found).congr fun _ taken rest => ?_
  simp

/-- A token that has to stand before what a step recognizes. -/
theorem Recognizes.expect {after : α → Symbols} (h : Recognizes symbols step after spelling)
    (token : Token) :
    Recognizes symbols (Parser.expect token >>= fun _ => step) after fun value taken rest =>
      ∃ back, taken = token :: back ∧ spelling value back rest := by
  refine ((reads_expect token).bind fun _ => h).congr fun value taken rest => ?_
  simp

theorem reads_eat (token : Token) :
    Reads symbols (eat token) fun found taken rest =>
      if found then taken = [token] else taken = [] ∧ rest.head? ≠ some token := by
  have h : ∀ peeked : Option Token,
      Reads symbols (if peeked = some token then next >>= fun _ => pure true else pure false)
        fun found taken _ =>
          if peeked = some token then found = true ∧ ∃ other, taken = [other]
          else found = false ∧ taken = [] := by
    intro peeked
    split
    · refine (recognizes_next fun _ _ _ => reads_pure true).congr fun found taken rest => ?_
      constructor
      · rintro ⟨other, back, rfl, rfl, rfl⟩
        exact ⟨rfl, other, rfl⟩
      · rintro ⟨rfl, other, rfl⟩
        exact ⟨other, [], rfl, rfl, rfl⟩
    · exact reads_pure false
  refine (reads_peek.bind h).congr fun found taken rest => ?_
  constructor
  · rintro ⟨_, _, back, rfl, ⟨rfl, rfl⟩, hfound⟩
    split at hfound
    · next hhead =>
      -- The token taken is the one that was peeked at.
      obtain ⟨rfl, other, rfl⟩ := hfound
      simpa using hhead
    · next hhead =>
      obtain ⟨rfl, rfl⟩ := hfound
      simpa using hhead
  · intro hfound
    refine ⟨_, [], taken, rfl, ⟨rfl, rfl⟩, ?_⟩
    cases found with
    | true =>
      obtain rfl : taken = [token] := hfound
      simp
    | false =>
      obtain ⟨rfl, hhead⟩ : taken = [] ∧ rest.head? ≠ some token := by simpa using hfound
      simp [hhead]

/-- A choice by whether a token comes next. -/
theorem recognizes_eat_ite {token : Token} {yes no : Parse α} {after : α → Symbols}
    (hyes : Recognizes symbols yes after spelling)
    (hno : Recognizes symbols no after spelling') :
    Recognizes symbols (eat token >>= fun found => if found then yes else no) after
      fun value taken rest =>
        (∃ back, taken = token :: back ∧ spelling value back rest) ∨
          ((taken ++ rest).head? ≠ some token ∧ spelling' value taken rest) := by
  have h : ∀ found : Bool, Recognizes symbols (if found then yes else no) after
      fun value taken rest => if found then spelling value taken rest
        else spelling' value taken rest := by
    intro found
    cases found with
    | true => exact hyes
    | false => exact hno
  refine ((reads_eat token).bind h).congr fun value taken rest => ?_
  constructor
  · rintro ⟨found, front, back, rfl, hfound, hspelled⟩
    cases found with
    | true =>
      obtain rfl : front = [token] := hfound
      exact .inl ⟨back, rfl, hspelled⟩
    | false =>
      obtain ⟨rfl, hhead⟩ : front = [] ∧ (back ++ rest).head? ≠ some token := by
        simpa using hfound
      exact .inr ⟨hhead, hspelled⟩
  · rintro (⟨back, rfl, hspelled⟩ | ⟨hhead, hspelled⟩)
    · exact ⟨true, [token], back, rfl, rfl, hspelled⟩
    · exact ⟨false, [], taken, rfl, by simpa using hhead, hspelled⟩

/-- Looking whether a given token comes next, if any does. -/
theorem reads_ahead (token : Token) :
    Reads symbols (ahead token) fun _ taken rest =>
      taken = [] ∧ ∀ next ∈ rest.head?, next = token where
  sound := by
    intro lexemes last value cursor hok
    cases lexemes with
    | nil =>
      cases hok
      exact ⟨[], rfl, rfl, rfl, nofun⟩
    | cons lexeme lexemes =>
      simp only [ahead, Cursor.ahead] at hok
      split at hok
      · next heq =>
        cases hok
        exact ⟨[], rfl, rfl, rfl, by simpa using heq⟩
      · cases hok
  complete := by
    rintro taken rest last value ⟨htaken, hhead⟩
    rw [tokens_eq_nil.mp htaken, nil_append]
    refine ⟨last, ?_⟩
    cases rest with
    | nil => rfl
    | cons lexeme rest =>
      have heq : symbols.classify lexeme.value = token := by simpa using hhead
      simp [ahead, Cursor.ahead, heq]

/-! ### New names -/

/-- After a name that is not known yet, a step may rely on that. -/
theorem recognizes_newName {step : Located String → Parse α} {after : α → Symbols}
    {spelling : String → Spelling α}
    (h : ∀ span name, symbols.classOf? name = none →
      Recognizes symbols (step ⟨span, name⟩) after (spelling name)) :
    Recognizes symbols (newName >>= step) after fun value taken rest =>
      ∃ name back, taken = .identifier name :: back ∧ spelling name value back rest := by
  rw [newName, bind_assoc]
  refine (@recognizes_next _ symbols _ after
    (fun token value taken rest =>
      ∃ name, token = .identifier name ∧ spelling name value taken rest)
    fun span token hlexeme => ?_).congr fun value taken rest => ?_
  · obtain ⟨lexeme, hlexeme⟩ := hlexeme
    cases token with
    | identifier name =>
      refine (h span name (classify_eq_identifier hlexeme)).congr fun value taken rest => ?_
      simp
    | typeName _ | constant _ | literal _ | keyword _ | mark _ =>
      refine (recognizes_of_error after fun cursor => ⟨_, rfl⟩).congr fun value taken rest =>
        ?_
      simp
  · constructor
    · rintro ⟨_, back, rfl, name, rfl, hspelled⟩
      exact ⟨name, back, rfl, hspelled⟩
    · rintro ⟨name, back, rfl, hspelled⟩
      exact ⟨_, back, rfl, name, rfl, hspelled⟩

section Registration

variable {name : Located String}

/-- A name that was not known becomes that of a type, whatever the tokens
come from. -/
theorem register_of_new {σ ε : Type} [TokenSource σ ε] {state : σ}
    (hstate : TokenSource.symbols state = symbols)
    (hname : symbols.classOf? name.value = none) :
    register name state = .ok ((), TokenSource.know
      { symbols with classes := symbols.classes.insert name.value .type } state) := by
  simp only [register, hstate, declare, hname]

/-- A name that was not known becomes that of a constant. -/
theorem registerConstant_of_new {σ ε : Type} [TokenSource σ ε] {state : σ}
    (hstate : TokenSource.symbols state = symbols)
    (hname : symbols.classOf? name.value = none) (number : IntExpr) :
    registerConstant name number state = .ok ((), TokenSource.know
      { classes := symbols.classes.insert name.value .constant
        constants := symbols.constants.insert name.value number.text } state) := by
  simp only [registerConstant, hstate, defineConstant, declare, hname, Except.map]

variable (hname : symbols.classOf? name.value = none)
include hname

theorem register_eq_ok (rest : List (Located Lexeme)) (last : Span) :
    (register name : Parse Unit) ⟨rest, symbols, last⟩ =
      .ok ((), ⟨rest,
        { symbols with classes := symbols.classes.insert name.value .type }, last⟩) :=
  register_of_new rfl hname

theorem registerConstant_eq_ok (number : IntExpr) (rest : List (Located Lexeme))
    (last : Span) : (registerConstant name number : Parse Unit) ⟨rest, symbols, last⟩ =
      .ok ((), ⟨rest, { classes := symbols.classes.insert name.value .constant
                        constants := symbols.constants.insert name.value number.text },
                          last⟩) :=
  registerConstant_of_new rfl hname number

theorem recognizes_register {value : α} {after : α → Symbols}
    (hafter : after value = { symbols with
      classes := symbols.classes.insert name.value .type }) :
    Recognizes symbols (register name >>= fun _ => pure value) after fun found taken _ =>
      found = value ∧ taken = [] :=
  recognizes_of_ok fun rest last =>
    bind_eq_ok.mpr ⟨(), _, register_eq_ok hname rest last, by rw [hafter]; rfl⟩

theorem recognizes_registerConstant {number : IntExpr} {value : α} {after : α → Symbols}
    (hafter : after value =
      { classes := symbols.classes.insert name.value .constant
        constants := symbols.constants.insert name.value number.text }) :
    Recognizes symbols (registerConstant name number >>= fun _ =>
      pure value) after fun found taken _ =>
      found = value ∧ taken = [] :=
  recognizes_of_ok fun rest last =>
    bind_eq_ok.mpr ⟨(), _, registerConstant_eq_ok hname number rest last, by rw [hafter]; rfl⟩

end Registration

/-! ### Repetition -/

/-- The successful runs of `item`, again as long as `more` says so. -/
inductive Runs (item : Parse α) (more : Parse Bool) : Cursor → List α → Cursor → Prop where
  | last {start middle stop value} (hitem : item start = .ok (value, middle))
      (hmore : more middle = .ok (false, stop)) : Runs item more start [value] stop
  | again {start middle middle' stop value values} (hitem : item start = .ok (value, middle))
      (hmore : more middle = .ok (true, middle'))
      (hrest : Runs item more middle' values stop) :
      Runs item more start (value :: values) stop

/-- A repetition succeeds on the runs within its limit. -/
theorem repeated_eq_ok {limit : Nat} :
    repeated item more limit start = .ok (values, stop) ↔
      Runs item more start values stop ∧ values.length ≤ limit := by
  -- The limit counts items, so a run fits it if its values do.
  induction limit generalizing start values with
  | zero =>
    constructor
    · intro h
      cases h
    · rintro ⟨h, hlen⟩
      cases h <;> cases hlen
  | succ limit ih =>
    rw [repeated]
    constructor
    · intro h
      obtain ⟨value, middle, hitem, h⟩ := bind_eq_ok.mp h
      obtain ⟨again, middle', hmore, h⟩ := bind_eq_ok.mp h
      cases again with
      | false =>
        cases h
        exact ⟨.last hitem hmore, by simp⟩
      | true =>
        obtain ⟨others, _, hothers, h⟩ := bind_eq_ok.mp h
        cases h
        obtain ⟨hruns, hlen⟩ := ih.mp hothers
        exact ⟨.again hitem hmore hruns, by simpa using hlen⟩
    · rintro ⟨h, hlen⟩
      cases h with
      | last hitem hmore =>
        exact bind_eq_ok.mpr ⟨_, _, hitem, bind_eq_ok.mpr ⟨_, _, hmore, rfl⟩⟩
      | again hitem hmore hrest =>
        have hothers := ih.mpr ⟨hrest, by simpa using hlen⟩
        exact bind_eq_ok.mpr ⟨_, _, hitem, bind_eq_ok.mpr ⟨_, _, hmore,
          bind_eq_ok.mpr ⟨_, _, hothers, rfl⟩⟩⟩

/-- A step that leaves fewer lexemes than there were. -/
def Shortens (step : Parse α) : Prop :=
  ∀ ⦃start value stop⦄, step start = .ok (value, stop) → stop.rest.length < start.rest.length

/-- A step that always takes some tokens leaves fewer lexemes than there
were. -/
theorem shortens_of_reads (h : ∀ symbols, Reads symbols step spelling)
    (hne : ∀ {value taken rest}, spelling value taken rest → taken ≠ []) : Shortens step := by
  intro start value stop hok
  obtain ⟨taken, htaken, -, hspelled⟩ := (h start.symbols).sound hok
  have hpositive : 0 < taken.length := by
    rw [length_pos_iff]
    intro hnil
    exact hne hspelled (tokens_eq_nil.mpr hnil)
  change start.rest = taken ++ stop.rest at htaken
  rw [htaken, length_append]
  omega

/-- A step that needs a lexeme. -/
def Starves (step : Parse α) : Prop :=
  ∀ symbols last, step ⟨[], symbols, last⟩ = .error ⟨last, .endOfInput⟩

/-- What a repetition needs so that its limit does not matter: an item takes
at least one lexeme, fails as the limit does if there is none, and no lexeme
comes back when more items are asked for. -/
structure Repeatable (item : Parse α) (more : Parse Bool) : Prop where
  shortens : Shortens item
  starves : Starves item
  keeps : ∀ ⦃start again stop⦄, more start = .ok (again, stop) →
    stop.rest.length ≤ start.rest.length

/-- Items that take a token and end in time can be repeated. -/
theorem repeatable_of_reads {spelling'} (hitem : ∀ symbols, Reads symbols item spelling)
    (hmore : ∀ symbols, Reads symbols more spelling')
    (hne : ∀ {value taken rest}, spelling value taken rest → taken ≠ [])
    (hstarves : Starves item) : Repeatable item more where
  shortens := shortens_of_reads hitem hne
  starves := hstarves
  keeps start again stop hok := by
    obtain ⟨taken, htaken, _, _⟩ := (hmore _).sound hok
    change start.rest = taken ++ stop.rest at htaken
    rw [htaken, length_append]
    omega

namespace Repeatable

variable (h : Repeatable item more)
include h

/-- There are no more items than lexemes. -/
theorem length_le (hruns : Runs item more start values stop) :
    values.length ≤ start.rest.length := by
  induction hruns with
  | last hfirst _ =>
    have := h.shortens hfirst
    rw [length_singleton]
    omega
  | again hfirst hagain _ ih =>
    have := h.shortens hfirst
    have := h.keeps hagain
    rw [length_cons]
    omega

/-- The limit of a repetition does not cut it short. -/
theorem oneOrMore_eq_ok :
    oneOrMore item more start = .ok (values, stop) ↔ Runs item more start values stop := by
  rw [oneOrMore, repeated_eq_ok]
  exact and_iff_left_of_imp h.length_le

/-- What follows an item and the answer of `more` is read from fewer
lexemes. -/
theorem round_congr {others others' : Parse (List α)}
    (hothers : ∀ stop : Cursor,
      stop.rest.length < start.rest.length → others stop = others' stop) :
    (item >>= fun first => more >>= fun again =>
      if again then others >>= fun rest => pure (first :: rest) else pure [first]) start =
    (item >>= fun first => more >>= fun again =>
      if again then others' >>= fun rest => pure (first :: rest)
        else pure [first]) start := by
  refine bind_congr_of_ok fun first middle hitem =>
    bind_congr_of_ok fun again stop hagain => ?_
  cases again with
  | false => rfl
  | true =>
    have hsame := hothers stop (Nat.lt_of_le_of_lt (h.keeps hagain) (h.shortens hitem))
    change (others stop >>= _) = (others' stop >>= _)
    rw [hsame]

/-- A limit that is not below the number of lexemes does not matter. -/
theorem repeated_congr {limit limit' : Nat} (hlimit : start.rest.length ≤ limit)
    (hlimit' : start.rest.length ≤ limit') :
    repeated item more limit start = repeated item more limit' start := by
  -- Without a lexeme left, an item fails as a limit of zero does.
  have hempty : ∀ {limit} {start : Cursor}, start.rest = [] →
      repeated item more limit start = .error ⟨start.last, .endOfInput⟩ := by
    rintro limit ⟨rest, symbols, last⟩ rfl
    cases limit with
    | zero => rfl
    | succ limit => exact bind_eq_error.mpr (.inl (h.starves symbols last))
  induction limit generalizing limit' start with
  | zero =>
    have hnil := eq_nil_of_length_eq_zero (Nat.le_zero.mp hlimit)
    rw [hempty hnil, hempty hnil]
  | succ limit ih =>
    cases limit' with
    | zero =>
      have hnil := eq_nil_of_length_eq_zero (Nat.le_zero.mp hlimit')
      rw [hempty hnil, hempty hnil]
    | succ limit' => exact h.round_congr fun stop hlt => ih (by omega) (by omega)

/-- A repetition is one item, and then another repetition if `more` says so.
-/
theorem oneOrMore_eq : oneOrMore item more = item >>= fun first => more >>= fun again =>
    if again then oneOrMore item more >>= fun others => pure (first :: others)
    else pure [first] := by
  funext cursor
  change repeated item more cursor.rest.length cursor = _
  rw [h.repeated_congr (Nat.le_refl cursor.rest.length) (Nat.le_succ cursor.rest.length)]
  refine h.round_congr fun stop hlt => ?_
  exact h.repeated_congr (Nat.le_of_lt hlt) (Nat.le_refl _)

end Repeatable

/-- Spellings one after the other, again as long as `more` says so. -/
inductive Repeated (item : Spelling α) (more : Spelling Bool) : Spelling (List α) where
  | last {value front stop rest} (hitem : item value front (stop ++ rest))
      (hmore : more false stop rest) : Repeated item more [value] (front ++ stop) rest
  | again {value values front middle back rest}
      (hitem : item value front (middle ++ (back ++ rest)))
      (hmore : more true middle (back ++ rest))
      (hrest : Repeated item more values back rest) :
      Repeated item more (value :: values) (front ++ (middle ++ back)) rest

section Repetition

variable {item : Parse α} {more : Parse Bool} {spelling : Spelling α}
    {spelling' : Spelling Bool}
  (hitem : ∀ symbols, Reads symbols item spelling)
  (hmore : ∀ symbols, Reads symbols more spelling')
include hitem hmore

/-- What a run took spells its values. -/
theorem Runs.repeated {start stop values} (h : Runs item more start values stop) :
    ∃ taken, start.rest = taken ++ stop.rest ∧ stop.symbols = start.symbols ∧
      Repeated spelling spelling' values (start.symbols.tokens taken)
        (start.symbols.tokens stop.rest) := by
  induction h with
  | last hfirst hstop =>
    obtain ⟨front, hfront, hknown, hspelled⟩ := (hitem _).sound hfirst
    obtain ⟨back, hback, hknown', hstopped⟩ := (hmore _).sound hstop
    rw [hback] at hfront hspelled
    rw [hknown] at hstopped hknown'
    rw [tokens_append] at hspelled
    refine ⟨front ++ back, ?_, hknown', ?_⟩
    · rw [hfront, append_assoc]
    · rw [tokens_append]
      exact .last hspelled hstopped
  | again hfirst hagain _ ih =>
    obtain ⟨front, hfront, hknown, hspelled⟩ := (hitem _).sound hfirst
    obtain ⟨middle, hmiddle, hknown', hwent⟩ := (hmore _).sound hagain
    obtain ⟨back, hback, hknown'', hrepeated⟩ := ih
    rw [hback] at hmiddle hwent
    rw [hmiddle] at hfront hspelled
    rw [hknown] at hwent hknown'
    rw [hknown'] at hknown'' hrepeated
    rw [tokens_append] at hwent
    rw [tokens_append, tokens_append] at hspelled
    refine ⟨front ++ (middle ++ back), ?_, hknown'', ?_⟩
    · rw [hfront, append_assoc, append_assoc]
    · rw [tokens_append, tokens_append]
      exact .again hspelled hwent hrepeated

/-- There is a run over every such spelling. -/
theorem Repeated.runs {values tokens left}
    (h : Repeated spelling spelling' values tokens left) {taken rest}
    (htaken : symbols.tokens taken = tokens) (hrest : symbols.tokens rest = left)
    (last : Span) :
    ∃ last', Runs item more ⟨taken ++ rest, symbols, last⟩ values ⟨rest, symbols, last'⟩ := by
  induction h generalizing taken last with
  | last hfirst hstop =>
    subst hrest
    obtain ⟨front, back, rfl, rfl, rfl⟩ := tokens_eq_append.mp htaken
    rw [← tokens_append] at hfirst
    obtain ⟨middle, hfirst⟩ := (hitem symbols).complete hfirst
    obtain ⟨last', hstop⟩ := (hmore symbols).complete hstop
    rw [append_assoc]
    exact ⟨last', .last hfirst hstop⟩
  | again hfirst hagain _ ih =>
    subst hrest
    obtain ⟨front, others, rfl, rfl, hothers⟩ := tokens_eq_append.mp htaken
    obtain ⟨middle, back, rfl, rfl, rfl⟩ := tokens_eq_append.mp hothers
    rw [← tokens_append, ← tokens_append] at hfirst
    rw [← tokens_append] at hagain
    obtain ⟨place, hfirst⟩ := (hitem symbols).complete hfirst
    obtain ⟨place', hagain⟩ := (hmore symbols).complete hagain
    obtain ⟨last', hruns⟩ := ih rfl rfl place'
    rw [append_assoc, append_assoc]
    exact ⟨last', .again hfirst hagain hruns⟩

/-- A repetition reads spellings of its items. -/
theorem reads_oneOrMore (h : Repeatable item more) :
    Reads symbols (oneOrMore item more) (Repeated spelling spelling') where
  sound hok := (h.oneOrMore_eq_ok.mp hok).repeated hitem hmore
  complete hspelled := by
    obtain ⟨last', hruns⟩ := hspelled.runs hitem hmore rfl rfl _
    exact ⟨last', h.oneOrMore_eq_ok.mpr hruns⟩

end Repetition

end Parser
end Xdr
