import Xdr.Proofs.Decl.Recognition
import Xdr.Proofs.Token.Segment

/-!
# Promptness

What it means that a step of parsing reports a wrong lexeme as soon as it
reads it, and how that is derived along the step's definition.

Two facts about a step are carried together.  What it did does not depend on
lexemes it has not looked at, of which there is at most one after those it
took.  And what it has taken can always be completed, by lexemes that can be
spelled.  So a step fails at the first lexeme with which no completion goes
on.

## Main Statements

* `Parser.PromptAt.bind`, `Parser.Leads.bind` — steps one after the other
* `Parser.leads_next`, `Parser.leads_eat_ite` — a choice by the next token
* `Parser.leads_oneOrMore` — a repetition

## Design Notes

A step may succeed with a value after which the next step has no completion
of its own that suits all lexemes that may follow: after an array there may
be anything, but a name alone ends only where no bracket follows.  So a
completion may be asked to have a value of a certain kind (`Aim`), and only
such a value has to be completed by the step after it. -/

namespace Xdr

open List

/-- A lexeme that some text spells. -/
def Lexeme.Spellable (lexeme : Lexeme) : Prop :=
  ∃ text, Spells text lexeme

theorem Lexeme.Spellable.mark (mark : Mark) : (Lexeme.mark mark).Spellable :=
  ⟨[mark.char], .mark mark⟩

theorem Lexeme.Spellable.keyword (keyword : Keyword) :
    (Lexeme.keyword keyword).Spellable := by
  refine ⟨keyword.spelling.toList, .keyword ?_ ?_⟩
  · cases keyword <;> exact .mk (by decide) (all_eq_true.mp (by decide))
  · cases keyword <;> decide

namespace Parser

variable {α β : Type} {symbols : Symbols} {step : Parse α}
    {front back lexemes : List (Located Lexeme)}
  {after : Symbols} {Post Aim : α → Symbols → Prop} {lexeme : Located Lexeme}
  {cursor : Cursor} {value : α} {token : Token}

/-- The place of the last of some lexemes, or `last` if there is none. -/
def place (last : Span) (lexemes : List (Located Lexeme)) : Span :=
  (lexemes.getLast?.map Located.span).getD last

@[simp] theorem place_cons (last : Span) (lexeme : Located Lexeme)
    (lexemes : List (Located Lexeme)) :
    place last (lexeme :: lexemes) = place lexeme.span lexemes := by
  rw [place, place, getLast?_cons]
  cases lexemes.getLast? <;> rfl

@[simp] theorem place_append (last : Span) (front back : List (Located Lexeme)) :
    place last (front ++ back) = place (place last front) back := by
  induction front generalizing last with
  | nil => rfl
  | cons lexeme front ih => rw [cons_append, place_cons, place_cons, ih]

/-! ### Completion -/

/-- With the names of `symbols` known, the step takes exactly these lexemes,
whatever comes after them. -/
def Takes (symbols : Symbols) (step : Parse α) (taken : List (Located Lexeme)) (value : α)
    (after : Symbols) : Prop :=
  ∀ rest last, ∃ last', step ⟨taken ++ rest, symbols,
    last⟩ = .ok (value, ⟨rest, after, last'⟩)

/-- Lexemes that others, which can be spelled, complete to some that the
step takes for a value that satisfies `Aim` together with the names known
then. -/
def Viable (symbols : Symbols) (step : Parse α) (Aim : α → Symbols → Prop)
    (front : List (Located Lexeme)) : Prop :=
  ∃ more value after, (∀ lexeme ∈ more, lexeme.value.Spellable) ∧
    Takes symbols step (front ++ more) value after ∧ Aim value after

theorem Takes.bind {next : α → Parse β} {result : β} {middle : Symbols}
    (hstep : Takes symbols step front value middle)
    (hnext : Takes middle (next value) back result after) :
    Takes symbols (step >>= next) (front ++ back) result after := by
  intro rest last
  obtain ⟨place, hvalue⟩ := hstep (back ++ rest) last
  obtain ⟨last', hresult⟩ := hnext rest place
  rw [append_assoc]
  exact ⟨last', bind_eq_ok.mpr ⟨value, _, hvalue, hresult⟩⟩

theorem Takes.viable {taken} (h : Takes symbols step taken value after)
    (haim : Aim value after) : Viable symbols step Aim taken := by
  refine ⟨[], value, after, by simp, ?_, haim⟩
  rwa [append_nil]

theorem Takes.viable_bind {next : α → Parse β} {Aim : β → Symbols → Prop}
    (hstep : Takes symbols step front value after)
    (hnext : Viable after (next value) Aim back) :
    Viable symbols (step >>= next) Aim (front ++ back) := by
  obtain ⟨more, result, known, hmore, htakes, haim⟩ := hnext
  refine ⟨more, result, known, hmore, ?_, haim⟩
  rw [append_assoc]
  exact hstep.bind htakes

namespace Viable

variable {step : Parse α} {Aim : α → Symbols → Prop} {front : List (Located Lexeme)}

/-- What completes a step is followed by what completes the next. -/
theorem bind {next : α → Parse β} {Aim' : β → Symbols → Prop}
    (h : Viable symbols step Aim front)
    (hnext : ∀ value after, Aim value after → Viable after (next value) Aim' []) :
    Viable symbols (step >>= next) Aim' front := by
  obtain ⟨more, value, after, hmore, htakes, hvalue⟩ := h
  obtain ⟨more', result, known, hmore', htakes', hresult⟩ := hnext value after hvalue
  refine ⟨more ++ more', result, known, forall_mem_append.mpr ⟨hmore, hmore'⟩, ?_, hresult⟩
  rw [← append_assoc]
  exact htakes.bind htakes'

end Viable

/-! ### Promptness -/

/-- How a step may end on the given lexemes.  If it succeeds, then what it
took can be completed, and the step would have done the same before any
lexemes with the same first one.  If it fails for lack of lexemes, it needed
them all.  And if it fails at one of them, those before it can be completed,
and the failure does not depend on those after it. -/
structure PromptAt (symbols : Symbols) (step : Parse α) (Post Aim : α → Symbols → Prop)
    (lexemes : List (Located Lexeme)) : Prop where
  ok : ∀ {last value cursor}, step ⟨lexemes, symbols, last⟩ = .ok (value, cursor) →
    Post value cursor.symbols ∧ ∃ taken, lexemes = taken ++ cursor.rest ∧
      (taken ≠ [] → Viable symbols step Aim taken) ∧
      ∀ rest last', rest.head? = cursor.rest.head? →
        step ⟨taken ++ rest, symbols,
          last'⟩ = .ok (value, ⟨rest, cursor.symbols, place last' taken⟩)
  error : ∀ {last error}, step ⟨lexemes, symbols, last⟩ = .error error →
    (error = ⟨place last lexemes,
      .endOfInput⟩ ∧ (lexemes ≠ [] → Viable symbols step Aim lexemes)) ∨
      ∃ front lexeme back, lexemes = front ++ lexeme :: back ∧ error.span = lexeme.span ∧
        error.value ≠ .endOfInput ∧ (front ≠ [] → Viable symbols step Aim front) ∧
        ∀ back' last', step ⟨front ++ lexeme :: back', symbols, last'⟩ = .error error

/-- A step that reports the first wrong lexeme, whatever the lexemes are. -/
def Prompt (symbols : Symbols) (step : Parse α) (Post Aim : α → Symbols → Prop) : Prop :=
  ∀ lexemes, PromptAt symbols step Post Aim lexemes

/-- A step that reports the first wrong lexeme, and that can always be
completed. -/
structure Leads (symbols : Symbols) (step : Parse α) (Post : α → Symbols → Prop) : Prop where
  prompt : Prompt symbols step Post Post
  viable : Viable symbols step Post []

/-- The names known stay the same. -/
abbrev Keeps (symbols : Symbols) : α → Symbols → Prop :=
  fun _ after => after = symbols

theorem Prompt.mono {Post'} (h : Prompt symbols step Post Aim)
    (hpost : ∀ value after, Post value after → Post' value after) :
    Prompt symbols step Post' Aim := by
  intro lexemes
  refine ⟨fun hok => ?_, (h lexemes).error⟩
  obtain ⟨hvalue, htaken⟩ := (h lexemes).ok hok
  exact ⟨hpost _ _ hvalue, htaken⟩

section Bind

variable {step : Parse α} {next : α → Parse β} {Post Aim : α → Symbols → Prop}
  {Post' Aim' : β → Symbols → Prop} {lexemes : List (Located Lexeme)}

/-- A first step that looks at no lexeme of the second but its first is
completed together with it. -/
theorem Viable.of_local {taken rest : List (Located Lexeme)}
    (hviable : taken ≠ [] → Viable symbols step Aim taken)
    (haim : ∀ value after, Aim value after → Viable after (next value) Aim' [])
    (hlocal : ∀ rest' last, rest'.head? = rest.head? →
      step ⟨taken ++ rest', symbols, last⟩ = .ok (value, ⟨rest', after, place last taken⟩))
    (hstarts : front <+: rest) (hfront : front ≠ [] → Viable after (next value) Aim' front)
    (hne : taken ++ front ≠ []) : Viable symbols (step >>= next) Aim' (taken ++ front) := by
  by_cases hempty : front = []
  · subst hempty
    rw [append_nil] at hne ⊢
    exact (hviable hne).bind haim
  · obtain ⟨tail, rfl⟩ := hstarts
    obtain ⟨more, result, known, hmore, htakes, hresult⟩ := hfront hempty
    refine ⟨more, result, known, hmore, fun back last => ?_, hresult⟩
    have hvalue := hlocal (front ++ more ++ back) last (by
      rw [append_assoc, head?_append_of_ne_nil _ hempty, head?_append_of_ne_nil _ hempty])
    obtain ⟨last', hok⟩ := htakes back (place last taken)
    rw [append_assoc taken, append_assoc taken]
    exact ⟨last', bind_eq_ok.mpr ⟨value, _, hvalue, hok⟩⟩

/-- **Steps one after the other** report the first wrong lexeme if each
does, and if what completes the first can be followed by what completes the
second. -/
theorem PromptAt.bind (hstep : PromptAt symbols step Post Aim lexemes)
    (hnext : ∀ {last value cursor}, step ⟨lexemes, symbols, last⟩ = .ok (value, cursor) →
      Post value cursor.symbols → PromptAt cursor.symbols (next value) Post' Aim' cursor.rest)
    (haim : ∀ value after, Aim value after → Viable after (next value) Aim' []) :
    PromptAt symbols (step >>= next) Post' Aim' lexemes where
  ok := by
    intro last result cursor hok
    obtain ⟨value, middle, hvalue, hresult⟩ := bind_eq_ok.mp hok
    obtain ⟨hpost, taken, rfl, hviable, hlocal⟩ := hstep.ok hvalue
    obtain ⟨hpost', taken', hrest, hviable', hlocal'⟩ := (hnext hvalue hpost).ok hresult
    refine ⟨hpost', taken ++ taken', by rw [hrest, append_assoc], ?_,
      fun rest last' hhead => ?_⟩
    · exact .of_local hviable haim hlocal ⟨cursor.rest, hrest.symm⟩ hviable'
    · rw [append_assoc, place_append]
      refine bind_eq_ok.mpr ⟨value, _, hlocal (taken' ++ rest) last' ?_, hlocal' rest _ hhead⟩
      rw [hrest, head?_append, head?_append, hhead]
  error := by
    intro last error herror
    rcases bind_eq_error.mp herror with hfirst |
      ⟨value, ⟨rest, known, last'⟩, hvalue, hsecond⟩
    · rcases hstep.error hfirst with
        ⟨rfl, hviable⟩ | ⟨front, lexeme, back, hsplit, hspan, hkind, hviable, hsame⟩
      · exact .inl ⟨rfl, fun hne => (hviable hne).bind haim⟩
      · refine .inr ⟨front, lexeme, back, hsplit, hspan, hkind,
          fun hne => (hviable hne).bind haim, ?_⟩
        exact fun back' last' => bind_eq_error.mpr (.inl (hsame back' last'))
    · obtain ⟨hpost, taken, hsplit, hviable, hlocal⟩ := hstep.ok hvalue
      obtain rfl : lexemes = taken ++ rest := hsplit
      obtain rfl : last' = place last taken := by
        have hsame := hvalue.symm.trans (hlocal rest last rfl)
        cases hsame
        rfl
      rcases (hnext hvalue hpost).error hsecond with
        ⟨rfl, hviable'⟩ | ⟨front, lexeme, back, rfl, hspan, hkind, hviable', hsame⟩
      · exact .inl ⟨by rw [place_append],
          .of_local hviable haim hlocal (prefix_refl _) hviable'⟩
      · refine .inr ⟨taken ++ front, lexeme, back, by rw [append_assoc], hspan, hkind,
          .of_local hviable haim hlocal (prefix_append _ _) hviable', fun back' last' => ?_⟩
        rw [append_assoc]
        refine bind_eq_error.mpr (.inr ⟨value, _, hlocal (front ++ lexeme :: back') last' ?_,
          hsame back' _⟩)
        rw [head?_append, head?_append]
        rfl

theorem Prompt.bind (hstep : Prompt symbols step Post Aim)
    (hnext : ∀ value after, Post value after → Prompt after (next value) Post' Aim')
    (haim : ∀ value after, Aim value after → Viable after (next value) Aim' []) :
    Prompt symbols (step >>= next) Post' Aim' :=
  fun lexemes => (hstep lexemes).bind (fun _ hpost => hnext _ _ hpost _) haim

theorem Leads.bind (hstep : Leads symbols step Post)
    (hnext : ∀ value after, Post value after → Leads after (next value) Post') :
    Leads symbols (step >>= next) Post' where
  prompt := hstep.prompt.bind (fun value after hpost => (hnext value after hpost).prompt)
    fun value after hpost => (hnext value after hpost).viable
  viable := hstep.viable.bind fun value after hpost => (hnext value after hpost).viable

/-- The same for a first step that makes no name known. -/
theorem Leads.then (hstep : Leads symbols step (Keeps symbols))
    (hnext : ∀ value, Leads symbols (next value) Post') :
    Leads symbols (step >>= next) Post' := by
  refine hstep.bind fun value after hafter => ?_
  rw [hafter]
  exact hnext value

end Bind

/-! ### Single tokens -/

/-- A step that succeeds without taking anything, as long as the first
lexeme is the same. -/
theorem PromptAt.of_stays (value : α)
    (h : ∀ rest last, rest.head? = lexemes.head? →
      step ⟨rest, symbols, last⟩ = .ok (value, ⟨rest, after, last⟩))
    (hpost : Post value after) : PromptAt symbols step Post Aim lexemes := by
  constructor
  · intro last found cursor hok
    rw [h _ _ rfl] at hok
    cases hok
    exact ⟨hpost, [], rfl, fun hne => absurd rfl hne,
      fun rest last' hhead => h rest last' hhead⟩
  · intro last error herror
    rw [h _ _ rfl] at herror
    cases herror

/-- A step that fails at the first lexeme reports it. -/
theorem PromptAt.of_fails {error} (hkind : error ≠ .endOfInput)
    (h : ∀ rest last, step ⟨lexeme :: rest, symbols, last⟩ = .error ⟨lexeme.span, error⟩) :
    PromptAt symbols step Post Aim (lexeme :: lexemes) := by
  constructor
  · intro last value cursor hok
    rw [h] at hok
    cases hok
  · intro last found herror
    rw [h] at herror
    cases herror
    exact .inr ⟨[], lexeme, lexemes, rfl, rfl, hkind, fun hne => absurd rfl hne, h⟩

section Ok

variable {step : Parse α} {value : α} {after : Symbols} {Post Aim : α → Symbols → Prop}
  (h : ∀ rest last, step ⟨rest, symbols, last⟩ = .ok (value, ⟨rest, after, last⟩))
include h

/-- A step that takes nothing and always succeeds. -/
theorem prompt_of_ok (hpost : Post value after) : Prompt symbols step Post Aim :=
  fun _ => .of_stays value (fun rest last _ => h rest last) hpost

theorem leads_of_ok (hpost : Post value after) : Leads symbols step Post := by
  have htakes : Takes symbols step [] value after := fun rest last => ⟨last, h rest last⟩
  exact ⟨prompt_of_ok h hpost, htakes.viable hpost⟩

end Ok

theorem leads_pure (value : α) (hpost : Post value symbols) :
    Leads symbols (pure value) Post :=
  leads_of_ok (fun _ _ => rfl) hpost

theorem leads_return (value : α) : Leads symbols (pure value) (Keeps symbols) :=
  leads_pure value rfl

/-- A token that a lexeme stands for which can be spelled. -/
def Offered (symbols : Symbols) (token : Token) : Prop :=
  ∃ lexeme : Lexeme, lexeme.Spellable ∧ symbols.classify lexeme = token

theorem Offered.mark (mark : Mark) : Offered symbols (.mark mark) :=
  ⟨.mark mark, .mark mark, rfl⟩

theorem Offered.keyword (keyword : Keyword) : Offered symbols (.keyword keyword) :=
  ⟨.keyword keyword, .keyword keyword, rfl⟩

/-- What is spelled need not have been there. -/
theorem Viable.drop (h : Viable symbols step Aim [lexeme])
    (hlexeme : lexeme.value.Spellable) : Viable symbols step Aim [] := by
  obtain ⟨more, value, after, hmore, htakes, haim⟩ := h
  exact ⟨lexeme :: more, value, after, forall_mem_cons.mpr ⟨hlexeme, hmore⟩, htakes, haim⟩

/-- A step that fails at the token read last, which is at `span`. -/
def Rejects (span : Span) (step : Parse α) : Prop :=
  ∃ error, error ≠ .endOfInput ∧ ∀ rest symbols,
    step ⟨rest, symbols, span⟩ = .error ⟨span, error⟩

theorem rejects_fail (span : Span) {error} (h : error ≠ .endOfInput) :
    Rejects span (fail error : Parse α) :=
  ⟨error, h, fun _ _ => rfl⟩

section Next

variable {step : Located Token → Parse α} {Post : α → Symbols → Prop}

/-- Any lexeme may come first, if the step goes on after it. -/
theorem Viable.cons
    (h : Viable symbols (step ⟨lexeme.span, symbols.classify lexeme.value⟩) Post front) :
    Viable symbols (next >>= step) Post (lexeme :: front) := by
  obtain ⟨more, value, after, hmore, htakes, haim⟩ := h
  exact ⟨more, value, after, hmore, fun rest _ => htakes rest lexeme.span, haim⟩

/-- After a token that leads on, a step reports the first wrong lexeme if
what follows does. -/
theorem PromptAt.cons
    (h : Leads symbols (step ⟨lexeme.span, symbols.classify lexeme.value⟩) Post) :
    PromptAt symbols (next >>= step) Post Post (lexeme :: lexemes) := by
  have hviable : ∀ {front},
      (front ≠ [] →
        Viable symbols (step ⟨lexeme.span, symbols.classify lexeme.value⟩) Post front) →
        Viable symbols (next >>= step) Post (lexeme :: front) := by
    intro front hfront
    by_cases hempty : front = []
    · rw [hempty]
      exact h.viable.cons
    · exact (hfront hempty).cons
  constructor
  · intro last value cursor hok
    obtain ⟨hpost, taken, htaken, hfront, hlocal⟩ := (h.prompt lexemes).ok hok
    refine ⟨hpost, lexeme :: taken, congrArg (lexeme :: ·) htaken,
      fun _ => hviable hfront, ?_⟩
    intro rest last' hhead
    rw [place_cons]
    exact hlocal rest lexeme.span hhead
  · intro last error herror
    rcases (h.prompt lexemes).error herror with
      ⟨rfl, hfront⟩ | ⟨front, wrong, back, rfl, hspan, hkind, hfront, hsame⟩
    · exact .inl ⟨by rw [place_cons], fun _ => hviable hfront⟩
    · exact .inr ⟨lexeme :: front, wrong, back, rfl, hspan, hkind, fun _ => hviable hfront,
        fun back' _ => hsame back' lexeme.span⟩

/-- **After any token**, a step may go on by what it is, or fail there. -/
theorem leads_next {good : Token} (hgood : Offered symbols good)
    (h : ∀ span token, (∃ lexeme, symbols.classify lexeme = token) →
      Leads symbols (step ⟨span, token⟩) Post ∨
      token ≠ good ∧ Rejects span (step ⟨span, token⟩)) :
    Leads symbols (next >>= step) Post where
  prompt lexemes := by
    cases lexemes with
    | nil =>
      constructor
      · intro last value cursor hok
        cases hok
      · intro last error herror
        cases herror
        exact .inl ⟨rfl, fun hne => absurd rfl hne⟩
    | cons lexeme lexemes =>
      rcases h lexeme.span _ ⟨lexeme.value, rfl⟩ with hleads | ⟨-, error, hkind, hfail⟩
      · exact .cons hleads
      · exact .of_fails hkind fun rest _ => hfail rest _
  viable := by
    obtain ⟨lexeme, hspellable, rfl⟩ := hgood
    rcases h default _ ⟨lexeme, rfl⟩ with hleads | ⟨hne, -⟩
    · have hfirst : Viable symbols (next >>= step) Post [⟨default, lexeme⟩] :=
        hleads.viable.cons
      exact hfirst.drop hspellable
    · exact absurd rfl hne

end Next

theorem leads_expect (htoken : Offered symbols token) :
    Leads symbols (expect token) (Keeps symbols) := by
  refine leads_next htoken fun span found _ => ?_
  dsimp only
  split
  · exact .inl (leads_return ())
  · next hne => exact .inr ⟨hne, rejects_fail span nofun⟩

/-- A token that has to stand before what a step reads. -/
theorem Leads.expect (h : Leads symbols step Post) (htoken : Offered symbols token) :
    Leads symbols (Parser.expect token >>= fun _ => step) Post :=
  (leads_expect htoken).then fun _ => h

theorem eat_cons (token : Token) (lexeme : Located Lexeme) (rest : List (Located Lexeme))
    (last : Span) :
    (eat token : Parse Bool) ⟨lexeme :: rest, symbols, last⟩ =
      if symbols.classify lexeme.value = token then .ok (true, ⟨rest, symbols, lexeme.span⟩)
      else .ok (false, ⟨lexeme :: rest, symbols, last⟩) := by
  change ite (some (symbols.classify lexeme.value) = some token) (next >>= fun _ => pure true)
    (pure false : Parse Bool) ⟨lexeme :: rest, symbols, last⟩ = _
  by_cases heq : symbols.classify lexeme.value = token
  · rw [if_pos heq, if_pos (congrArg some heq)]
    rfl
  · rw [if_neg heq, if_neg (fun hsome => heq (Option.some.inj hsome))]
    rfl

/-- Reading a token if it comes next is completed by that token. -/
theorem prompt_eat (token : Token) :
    Prompt symbols (eat token) (Keeps symbols) fun found after =>
      found = true ∧ after = symbols := by
  intro lexemes
  cases lexemes with
  | nil =>
    refine .of_stays false (fun rest last hhead => ?_) rfl
    rw [head?_eq_none_iff.mp hhead]
    rfl
  | cons lexeme lexemes =>
    by_cases heq : symbols.classify lexeme.value = token
    · have heat : ∀ rest last, (eat token : Parse Bool) ⟨lexeme :: rest, symbols, last⟩ =
          .ok (true, ⟨rest, symbols, lexeme.span⟩) :=
        fun rest last => by rw [eat_cons, if_pos heq]
      have htakes : Takes symbols (eat token) [lexeme] true symbols :=
        fun rest last => ⟨_, heat rest last⟩
      constructor
      · intro last found cursor hok
        rw [heat] at hok
        cases hok
        exact ⟨rfl, [lexeme], rfl, fun _ => htakes.viable ⟨rfl, rfl⟩,
          fun rest last' _ => heat rest last'⟩
      · intro last error herror
        rw [heat] at herror
        cases herror
    · refine .of_stays false (fun rest last hhead => ?_) rfl
      obtain ⟨rest, rfl⟩ := head?_eq_some_iff.mp hhead
      rw [eat_cons, if_neg heq]

theorem takes_eat (h : symbols.classify lexeme.value = token) :
    Takes symbols (eat token) [lexeme] true symbols := by
  intro rest last
  refine ⟨lexeme.span, ?_⟩
  rw [singleton_append, eat_cons, if_pos h]

theorem viable_eat (htoken : Offered symbols token) :
    Viable symbols (eat token) (fun found after => found = true ∧ after = symbols) [] := by
  obtain ⟨lexeme, hspellable, hlexeme⟩ := htoken
  have htakes := @takes_eat _ ⟨default, lexeme⟩ _ hlexeme
  exact (htakes.viable ⟨rfl, rfl⟩).drop hspellable

section EatIte

variable {token : Token} {yes no : Parse α} {Post Aim : α → Symbols → Prop}

/-- A choice by whether a token comes next.  Where the token is not there,
another may be. -/
theorem prompt_eat_ite (hyes : Prompt symbols yes Post Aim)
    (hviable : Viable symbols yes Aim []) (hno : Prompt symbols no Post Aim) :
    Prompt symbols (eat token >>= fun found => if found then yes else no) Post Aim := by
  refine (prompt_eat token).bind ?_ ?_
  · rintro found _ rfl
    cases found with
    | true => exact hyes
    | false => exact hno
  · rintro _ _ ⟨rfl, rfl⟩
    exact hviable

theorem viable_eat_ite (htoken : Offered symbols token)
    (hviable : Viable symbols yes Aim []) :
    Viable symbols (eat token >>= fun found => if found then yes else no) Aim [] := by
  refine (viable_eat htoken).bind ?_
  rintro _ _ ⟨rfl, rfl⟩
  exact hviable

theorem leads_eat_ite (htoken : Offered symbols token) (hyes : Leads symbols yes Post)
    (hno : Prompt symbols no Post Post) :
    Leads symbols (eat token >>= fun found => if found then yes else no) Post :=
  ⟨prompt_eat_ite hyes.prompt hyes.viable hno, viable_eat_ite htoken hyes.viable⟩

end EatIte

theorem prompt_peek : Prompt symbols peek (Keeps symbols) fun _ _ => False := by
  refine fun lexemes =>
    .of_stays (lexemes.head?.map fun lexeme =>
      symbols.classify lexeme.value) (fun rest last hhead => ?_) rfl
  simp only [peek, Cursor.peek, hhead]

/-- What comes next may be chosen. -/
theorem viable_peek {step} (hlexeme : lexeme.value.Spellable)
    (h : Viable symbols (step (some (symbols.classify lexeme.value))) Aim [lexeme]) :
    Viable symbols (peek >>= step) Aim [] := by
  obtain ⟨more, value, after, hmore, htakes, haim⟩ := h
  have hfirst : Viable symbols (peek >>= step) Aim [lexeme] :=
    ⟨more, value, after, hmore, fun rest last => htakes rest last, haim⟩
  exact hfirst.drop hlexeme

/-- Looking whether a given token comes next completes nothing. -/
theorem prompt_ahead (token : Token) :
    Prompt symbols (ahead token) (Keeps symbols) fun _ _ => False := by
  intro lexemes
  cases lexemes with
  | nil =>
    refine .of_stays () (fun rest last hhead => ?_) rfl
    rw [head?_eq_none_iff.mp hhead]
    rfl
  | cons lexeme lexemes =>
    by_cases heq : symbols.classify lexeme.value = token
    · refine .of_stays () (fun rest last hhead => ?_) rfl
      obtain ⟨rest, rfl⟩ := head?_eq_some_iff.mp hhead
      exact if_pos heq
    · have hkind :
        SyntaxError.unexpected token (symbols.classify lexeme.value) ≠ .endOfInput := nofun
      exact .of_fails hkind fun rest last => if_neg heq

/-! ### Repetition -/

/-- **A repetition** reports the first wrong lexeme if its items do and if
it can be ended after each of them. -/
theorem leads_oneOrMore {item : Parse α} {more : Parse Bool}
    (h : Repeatable item more) (hitem : ∀ symbols, Leads symbols item (Keeps symbols))
    (hmore : ∀ symbols, Prompt symbols more (Keeps symbols) (Keeps symbols))
    (hstop : ∀ symbols,
      Viable symbols more (fun again after => again = false ∧ after = symbols) []) :
    Leads symbols (oneOrMore item more) (Keeps symbols) := by
  have hend : ∀ first : α, Viable symbols
      (more >>= fun again =>
        if again then oneOrMore item more >>= fun others => pure (first :: others)
          else pure [first])
      (Keeps symbols) [] := by
    intro first
    refine (hstop symbols).bind ?_
    rintro _ _ ⟨rfl, rfl⟩
    exact (leads_return [first]).viable
  have hviable : Viable symbols (oneOrMore item more) (Keeps symbols) [] := by
    rw [h.oneOrMore_eq]
    refine (hitem symbols).viable.bind ?_
    rintro first _ rfl
    exact hend first
  refine ⟨fun lexemes => ?_, hviable⟩
  -- After an item there are fewer lexemes left, so the induction is on their number.
  induction hlength : lexemes.length using Nat.strongRecOn generalizing lexemes with
  | ind n ih =>
  subst hlength
  rw [h.oneOrMore_eq]
  refine ((hitem symbols).prompt lexemes).bind (fun {last first middle} hfirst hknown =>
    ?_) ?_
  · rw [hknown]
    refine (hmore symbols middle.rest).bind (fun {last again stop} hagain hknown' => ?_) ?_
    · rw [hknown']
      cases again with
      | false => exact (leads_return [first]).prompt _
      | true =>
        have hshorter : stop.rest.length < lexemes.length :=
          Nat.lt_of_le_of_lt (h.keeps hagain) (h.shortens hfirst)
        refine (ih _ hshorter stop.rest rfl).bind (fun {last others after} _ hknown'' =>
          ?_) ?_
        · rw [hknown'']
          exact (leads_return (first :: others)).prompt _
        · rintro others _ rfl
          exact (leads_return (first :: others)).viable
    · rintro again _ rfl
      cases again with
      | false => exact (leads_return [first]).viable
      | true =>
        refine hviable.bind ?_
        rintro others _ rfl
        exact (leads_return (first :: others)).viable
  · rintro first _ rfl
    exact hend first

end Parser
end Xdr
