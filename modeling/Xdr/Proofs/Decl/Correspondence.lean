import Mathlib.Data.List.Forall2
import Xdr.Proofs.Decl.Acceptance

/-!
# Corresponding runs

The rules of the grammar are run on different sources of tokens: on a cursor
over lexemes, on lexemes at other places, with another conduct towards
names, or on a source that is scanned only as far as the parser reads.  Here
they are compared with the run on a cursor.

What two runs have to agree on is little.  A `Bridge` says which states
correspond, and has one law for each way in which a rule touches its state.
From these laws it follows rule by rule that the runs go hand in hand: they
end with the same declarations and the same names known, or with failures
that correspond.

The parser may refuse a name in two places: where the name of a new
declaration is read and is known already, and where it is made known at the
end of the declaration.  Which of the two refusals a run has come to can be
told from how it changes with them.

## Main Statements

* `Parser.Corresponds.bind`, `Parser.corresponds_oneOrMore` — steps one
  after the other, and again
* `Parser.corresponds_next`, `Parser.corresponds_newName` — single tokens
* `Parser.corresponds_register`, `Parser.corresponds_registerConstant` — a
  name that was found new is not taken
* `Parser.corresponds_file` — the whole parser
* `Parser.fileWith_redeclared`, `Parser.fileWith_eq` — the parser with
  another conduct

## Design Notes

A name is judged when it is read and made known when its declaration ends.
What is read in between makes no name known, so the relation between the
values of two steps sees the names known after them: from a new name on it
says that this name is not among them.

A source that keeps the token it has looked at must not have looked at one
when names become known, or the kept token is judged by an older table than
the cursor's.  So the relation also sees whether a token is pending
(`Point.fresh`).  Only a type definition without a suffix makes its name
known while a token is pending.  On a cursor that token is judged first, and
on a source that keeps it the same failure comes one step later; the two
steps are compared as one (`plainEnd`).
-/

namespace Xdr

open Xdr.Parser

/-- A syntax error in which `known` says what is reported of a name that is
declared already. -/
def SyntaxError.renamed (known : String → SyntaxError) : SyntaxError → SyntaxError
  | .redeclared name => known name
  | error => error

/-- The same value, at places that correspond. -/
structure Located.Moved {α : Type} (Place : Span → Span → Prop) (this other : Located α) :
    Prop where
  value : this.value = other.value
  span : Place this.span other.span

namespace Parser

variable {α α' β β' σ ε : Type} {symbols : Symbols} {fresh : Bool}

/-! ### Bridges -/

/-- Where two runs are: the names known in both, and whether no token is
pending. -/
structure Point where
  symbols : Symbols
  fresh : Bool

/-- What may be said of the values of two steps and the point after them. -/
abbrev Relation (α α' : Type) := α → α' → Point → Prop

/-- Outcomes that correspond: successes whose values are so related and
whose states correspond, or failures that correspond. -/
inductive Outcomes (State : Point → Cursor → σ → Prop)
    (Failure : Located SyntaxError → ε → Prop) (R : Relation α α') :
    Except (Located SyntaxError) (α × Cursor) → Except ε (α' × σ) → Prop where
  | ok {value value' stop stop' after} (hvalue : R value value' after)
      (hstop : State after stop stop') :
      Outcomes State Failure R (.ok (value, stop)) (.ok (value', stop'))
  | error {error error'} (herror : Failure error error') :
      Outcomes State Failure R (.error error) (.error error')

/-- The values are the same, and no name became known. -/
abbrev Same (symbols : Symbols) : Relation α α :=
  fun value value' after => value = value' ∧ after.symbols = symbols

/-- The values are the same, no name became known, and no token is pending. -/
abbrev Settled (symbols : Symbols) : Relation α α :=
  fun value value' after => value = value' ∧ after = ⟨symbols, true⟩

/-- The values are the same, whatever names are known then. -/
abbrev SameValue : Relation α α :=
  fun value value' _ => value = value'

/-- The same token at places that correspond. -/
abbrev SameToken (Place : Span → Span → Prop) (symbols : Symbols) :
    Relation (Located Token) (Located Token) :=
  fun token token' after => token.Moved Place token' ∧
    (∃ lexeme, symbols.classify lexeme = token.value) ∧ after = ⟨symbols, true⟩

/-- The same new name, which is not known. -/
abbrev SameNew (Place : Span → Span → Prop) (symbols : Symbols) :
    Relation (Located String) (Located String) :=
  fun name name' after =>
    name.Moved Place name' ∧ symbols.classOf? name.value = none ∧ after = ⟨symbols, true⟩

variable [TokenSource σ ε]

/-- The end of a type definition without a suffix, with its semicolon. -/
def plainEnd (name : Located String) (value : α) : Rule σ ε α := do
  ahead (.mark .semicolon)
  register name
  expect (.mark .semicolon)
  return value

variable (σ ε) in
/-- What a source of tokens has to have in common with a cursor so that the
rules of the grammar go hand in hand on both. -/
structure Bridge where
  /-- The states that correspond at a point. -/
  State : Point → Cursor → σ → Prop
  /-- The failures that correspond. -/
  Failure : Located SyntaxError → ε → Prop
  /-- The places that correspond. -/
  Place : Span → Span → Prop
  symbols_eq {point cursor state} : State point cursor state →
    cursor.symbols = point.symbols ∧ TokenSource.symbols state = point.symbols
  length_le {point cursor state} : State point cursor state →
    cursor.rest.length ≤ TokenSource.limit state
  know {point cursor state} (symbols : Symbols) : State point cursor state →
    point.fresh = true →
    State ⟨symbols, true⟩ { cursor with symbols := symbols } (TokenSource.know symbols state)
  peek {point cursor state} : State point cursor state →
    ∃ state', TokenSource.peek state = .ok (cursor.peek, state') ∧
      State ⟨point.symbols, false⟩ cursor state'
  next {point cursor state} : State point cursor state →
    Outcomes State Failure (SameToken Place point.symbols) cursor.next
      (TokenSource.next state)
  failure {point cursor state error} : State point cursor state →
    (∀ known, error.renamed known = error) →
    Failure ⟨cursor.last, error⟩ (TokenSource.failure error state)
  known {point cursor state span span'} (name : String) : State point cursor state →
    Place span span' →
    Failure (redeclared ⟨span, name⟩) (TokenSource.known ⟨span', name⟩ state)
  plainEnd {point cursor state name name'} {α : Type} (value : α) : State point cursor state →
    point.fresh = false → name.value = name'.value →
    point.symbols.classOf? name.value = none →
    Outcomes State Failure SameValue (plainEnd name value cursor) (plainEnd name' value state)

/-- Wherever the two steps start with states that correspond at `point`, so
do their outcomes. -/
def Corresponds (bridge : Bridge σ ε) (point : Point) (step : Parse α) (step' : Rule σ ε α')
    (R : Relation α α') : Prop :=
  ∀ start start', bridge.State point start start' →
    Outcomes bridge.State bridge.Failure R (step start) (step' start')

variable {bridge : Bridge σ ε} {point : Point} {R S : Relation α α'} {step : Parse α}
  {step' : Rule σ ε α'}

/-- The rule goes hand in hand on both, whichever names are known and
whether a token is pending or not. -/
abbrev Bridge.Keeps (bridge : Bridge σ ε)
    (rule : ∀ {σ ε : Type} [TokenSource σ ε], Rule σ ε α)
    (R : Symbols → Relation α α) : Prop :=
  ∀ {symbols fresh}, Corresponds bridge ⟨symbols, fresh⟩ rule rule (R symbols)

/-! ### Steps one after the other -/

/-- Related values correspond. -/
theorem corresponds_pure {value value'} (h : R value value' point) :
    Corresponds bridge point (pure value) (pure value') R :=
  fun _ _ hstart => .ok h hstart

theorem same_return (value : α) : bridge.Keeps (pure value) Same :=
  corresponds_pure ⟨rfl, rfl⟩

theorem settled_return (value : α) :
    Corresponds bridge ⟨symbols, true⟩ (pure value) (pure value) (Settled symbols) :=
  corresponds_pure ⟨rfl, rfl⟩

/-- A failure of another kind than that of a known name. -/
theorem corresponds_fail {error : SyntaxError} (h : ∀ known, error.renamed known = error) :
    Corresponds bridge point (fail error) (fail error) R :=
  fun _ _ hstart => .error (bridge.failure hstart h)

namespace Corresponds

/-- A weaker relation of the values will do. -/
theorem weaken (h : Corresponds bridge point step step' R)
    (hweaker : ∀ value value' after, R value value' after → S value value' after) :
    Corresponds bridge point step step' S := by
  intro start start' hstart
  have houtcomes := h _ _ hstart
  generalize step start = outcome, step' start' = outcome' at houtcomes ⊢
  cases houtcomes with
  | ok hvalue hstop => exact .ok (hweaker _ _ _ hvalue) hstop
  | error herror => exact .error herror

/-- Steps in sequence, where the second ones may depend on the values. -/
theorem bind {next : α → Parse β} {next' : α' → Rule σ ε β'} {S : Relation β β'}
    (hstep : Corresponds bridge point step step' R)
    (hnext : ∀ value value' after, R value value' after →
      Corresponds bridge after (next value) (next' value') S) :
    Corresponds bridge point (step >>= next) (step' >>= next') S := by
  intro start start' hstart
  change Outcomes _ _ S (step start >>= fun found => next found.1 found.2)
    (step' start' >>= fun found => next' found.1 found.2)
  have houtcomes := hstep _ _ hstart
  generalize step start = outcome, step' start' = outcome' at houtcomes
  cases houtcomes with
  | ok hvalue hstop => exact hnext _ _ _ hvalue _ _ hstop
  | error herror => exact .error herror

variable {step' : Rule σ ε α} {next : α → Parse β} {next' : α → Rule σ ε β'}
    {S : Relation β β'}

/-- What holds of the values of settled steps holds if a token may be
pending. -/
theorem same (h : Corresponds bridge point step step' (Settled symbols)) :
    Corresponds bridge point step step' (Same symbols) :=
  h.weaken fun _ _ _ hsettled => ⟨hsettled.1, by rw [hsettled.2]⟩

theorem value (h : Corresponds bridge point step step' (Same symbols)) :
    Corresponds bridge point step step' SameValue :=
  h.weaken fun _ _ _ hsame => hsame.1

/-- Steps after one that makes no name known and leaves no token pending. -/
theorem settle (hstep : Corresponds bridge point step step' (Settled symbols))
    (hnext : ∀ value, Corresponds bridge ⟨symbols, true⟩ (next value) (next' value) S) :
    Corresponds bridge point (step >>= next) (step' >>= next') S := by
  refine hstep.bind ?_
  rintro value _ _ ⟨rfl, rfl⟩
  exact hnext value

end Corresponds

/-- Steps after one that makes no name known. -/
theorem Corresponds.then {step' : Rule σ ε α} {next : α → Parse β} {next' : α → Rule σ ε β'}
    {S : Relation β β'} (hstep : Corresponds bridge point step step' (Same symbols))
    (hnext : ∀ value fresh,
      Corresponds bridge ⟨symbols, fresh⟩ (next value) (next' value) S) :
    Corresponds bridge point (step >>= next) (step' >>= next') S := by
  refine hstep.bind ?_
  rintro value _ ⟨_, fresh⟩ ⟨rfl, rfl⟩
  exact hnext value fresh

/-- A value that a function makes of that of a step. -/
theorem Corresponds.map {step' : Rule σ ε α}
    (h : Corresponds bridge point step step' (Same symbols)) (make : α → β) :
    Corresponds bridge point (step >>= fun value => pure (make value))
      (step' >>= fun value => pure (make value)) (Same symbols) :=
  h.then fun value _ => same_return (make value)

/-! ### Single tokens -/

/-- After any token, steps may go on by what it is. -/
theorem corresponds_next {step : Located Token → Parse α}
    {step' : Located Token → Rule σ ε α'} (h : ∀ span span' token, bridge.Place span span' →
      (∃ lexeme, symbols.classify lexeme = token) →
      Corresponds bridge ⟨symbols, true⟩ (step ⟨span, token⟩) (step' ⟨span', token⟩) R) :
    Corresponds bridge ⟨symbols, fresh⟩ (next >>= step) (next >>= step') R := by
  have hnext :
    Corresponds bridge ⟨symbols, fresh⟩ next next (SameToken bridge.Place symbols) :=
    fun _ _ hstart => bridge.next hstart
  refine hnext.bind ?_
  rintro ⟨span, token⟩ ⟨span', _⟩ _ ⟨⟨rfl, hspan⟩, hlexeme, rfl⟩
  exact h span span' token hspan hlexeme

/-- After a look at what comes next, a token is pending. -/
theorem corresponds_peek {step : Option Token → Parse α} {step' : Option Token → Rule σ ε α'}
    (h : ∀ found, Corresponds bridge ⟨symbols, false⟩ (step found) (step' found) R) :
    Corresponds bridge ⟨symbols, fresh⟩ (peek >>= step) (peek >>= step') R := by
  have hpeek : Corresponds bridge ⟨symbols, fresh⟩ peek peek
      fun found found' after => found = found' ∧ after = ⟨symbols, false⟩ := by
    intro start start' hstart
    obtain ⟨stop', hfound, hstop⟩ := bridge.peek hstart
    rw [hfound]
    exact .ok ⟨rfl, rfl⟩ hstop
  refine hpeek.bind ?_
  rintro found _ _ ⟨rfl, rfl⟩
  exact h found

/-- A token is pending after a choice by whether a given one comes next, if
it does not. -/
theorem corresponds_eat (token : Token) :
    Corresponds bridge ⟨symbols, fresh⟩ (eat token) (eat token)
      fun found found' after => found = found' ∧ after = ⟨symbols, found⟩ := by
  refine corresponds_peek fun found => ?_
  split
  · exact corresponds_next fun _ _ _ _ _ => corresponds_pure ⟨rfl, rfl⟩
  · exact corresponds_pure ⟨rfl, rfl⟩

/-- A choice by whether a token comes next. -/
theorem corresponds_eat_ite {token : Token} {yes no : Parse α} {yes' no' : Rule σ ε α'}
    (hyes : Corresponds bridge ⟨symbols, true⟩ yes yes' R)
    (hno : Corresponds bridge ⟨symbols, false⟩ no no' R) :
    Corresponds bridge ⟨symbols, fresh⟩
      (eat token >>= fun found => if found then yes else no)
      (eat token >>= fun found => if found then yes' else no') R := by
  refine (corresponds_eat token).bind ?_
  rintro found _ _ ⟨rfl, rfl⟩
  cases found with
  | true => exact hyes
  | false => exact hno

theorem settled_expect (token : Token) : bridge.Keeps (expect token) Settled := by
  refine corresponds_next fun _ _ found _ _ => ?_
  dsimp only
  split
  · exact settled_return ()
  · exact corresponds_fail fun _ => rfl

/-- A token that has to stand before what steps take. -/
theorem Corresponds.expect (h : Corresponds bridge ⟨symbols, true⟩ step step' R)
    (token : Token) :
    Corresponds bridge ⟨symbols, fresh⟩ (expect token >>= fun _ => step)
      (expect token >>= fun _ => step') R :=
  (settled_expect token).settle fun _ => h

/-! ### Repetition -/

/-- What `more` may say: it makes no name known, and where it ends a
repetition it is known whether a token is pending. -/
abbrev Ends (symbols : Symbols) (fresh : Bool) : Relation Bool Bool :=
  fun again again' after =>
    again = again' ∧ after.symbols = symbols ∧ (again = false → after.fresh = fresh)

section Repetition

variable {item : Parse α} {item' : Rule σ ε α} {more : Parse Bool} {more' : Rule σ ε Bool}
  {fresh done : Bool} (Inv : Symbols → Prop)
  (hitem : ∀ symbols fresh, Inv symbols → Corresponds bridge ⟨symbols, fresh⟩ item item'
    fun value value' after => value = value' ∧ Inv after.symbols)
  (hmore : ∀ symbols fresh,
    Corresponds bridge ⟨symbols, fresh⟩ more more' (Ends symbols done))
include hitem hmore

/-- Repetitions correspond if their items and ends do. -/
theorem corresponds_repeated (hinv : Inv symbols) (limit : Nat) :
    Corresponds bridge ⟨symbols, fresh⟩ (repeated item more limit)
      (repeated item' more' limit)
      fun values values' after =>
        values = values' ∧ Inv after.symbols ∧ after.fresh = done := by
  induction limit generalizing symbols fresh with
  | zero => exact corresponds_fail fun _ => rfl
  | succ limit ih =>
    refine (hitem symbols fresh hinv).bind ?_
    rintro first _ ⟨known, fresh⟩ ⟨rfl, hknown⟩
    refine (hmore known fresh).bind ?_
    rintro again _ ⟨_, fresh⟩ ⟨rfl, rfl, hend⟩
    cases again with
    | false => exact corresponds_pure ⟨rfl, hknown, hend rfl⟩
    | true =>
      refine (ih hknown).bind ?_
      rintro others _ after ⟨rfl, hafter⟩
      exact corresponds_pure ⟨rfl, hafter⟩

/-- **A repetition**, whose items may make names known.  The two sources may
set it different limits, since neither cuts it short. -/
theorem corresponds_oneOrMore (h : Repeatable item more) (hinv : Inv symbols) :
    Corresponds bridge ⟨symbols, fresh⟩ (oneOrMore item more) (oneOrMore item' more')
      fun values values' after =>
        values = values' ∧ Inv after.symbols ∧ after.fresh = done := by
  intro start start' hstart
  change Outcomes _ _ _ (repeated item more start.rest.length start) _
  rw [h.repeated_congr (Nat.le_refl _) (bridge.length_le hstart)]
  exact corresponds_repeated Inv hitem hmore hinv _ _ _ hstart

end Repetition

theorem ends_untilToken (token : Token) : bridge.Keeps (untilToken token) (Ends · true) := by
  refine (corresponds_eat token).bind ?_
  rintro found _ _ ⟨rfl, rfl⟩
  refine corresponds_pure ⟨rfl, rfl, fun hend => ?_⟩
  simpa using hend

/-- A repetition of items that make no name known, up to a token. -/
theorem settled_items {item : Parse α} {item' : Rule σ ε α} {more : Parse Bool}
    {more' : Rule σ ε Bool} (h : Repeatable item more)
    (hitem : ∀ symbols fresh, Corresponds bridge ⟨symbols, fresh⟩ item item' (Same symbols))
    (hmore : ∀ symbols fresh,
      Corresponds bridge ⟨symbols, fresh⟩ more more' (Ends symbols true)) :
    Corresponds bridge ⟨symbols, fresh⟩ (oneOrMore item more) (oneOrMore item' more')
      (Settled symbols) := by
  refine (corresponds_oneOrMore (· = symbols) ?_ hmore h rfl).weaken ?_
  · rintro _ fresh rfl
    exact hitem _ fresh
  · rintro values _ ⟨_, _⟩ ⟨rfl, rfl, rfl⟩
    exact ⟨rfl, rfl⟩

/-! ### The parts of declarations -/

theorem settled_localName : bridge.Keeps localName Settled := by
  refine corresponds_next fun _ _ token _ _ => ?_
  cases token with
  | identifier _ | typeName _ => exact settled_return _
  | constant _ | literal _ | keyword _ | mark _ => exact corresponds_fail fun _ => rfl

theorem settled_intExpr : bridge.Keeps intExpr Settled := by
  refine corresponds_next fun _ _ token _ _ => ?_
  cases token with
  | literal _ | constant _ | identifier _ => exact settled_return _
  | typeName _ | keyword _ | mark _ => exact corresponds_fail fun _ => rfl

theorem same_unsignedType : bridge.Keeps unsignedType Same :=
  corresponds_eat_ite (same_return _) (corresponds_eat_ite (same_return _)
    (corresponds_eat_ite (same_return _) (same_return _)))

theorem settled_structType : bridge.Keeps structType Settled := by
  refine corresponds_next fun _ _ token _ _ => ?_
  cases token with
  | identifier _ | typeName _ => exact settled_return _
  | constant _ | literal _ | keyword _ | mark _ => exact corresponds_fail fun _ => rfl

theorem same_typeRef : bridge.Keeps typeRef Same := by
  refine corresponds_next fun _ _ token _ _ => ?_
  cases token with
  | identifier _ | typeName _ => exact same_return _
  | constant _ | literal _ | mark _ => exact corresponds_fail fun _ => rfl
  | keyword keyword =>
    cases keyword with
    | int | long | hyper | float | double | bool | string | opaqueData | netobj | void =>
      exact same_return _
    | unsigned => exact same_unsignedType
    | struct => exact settled_structType.same
    | _ => exact corresponds_fail fun _ => rfl

theorem settled_arrayLength (close : Token) : bridge.Keeps (arrayLength close) Settled :=
  corresponds_eat_ite (settled_return none)
    (settled_intExpr.settle fun length => (settled_return (some length)).expect close)

/-- A token is pending after a suffix if there is none. -/
theorem corresponds_suffix :
    Corresponds bridge ⟨symbols, fresh⟩ suffix suffix
      fun form form' after => form = form' ∧ after = ⟨symbols, form ≠ .plain⟩ :=
  corresponds_eat_ite
    ((settled_arrayLength _).settle fun _ => corresponds_pure ⟨rfl, rfl⟩)
    (corresponds_eat_ite ((settled_arrayLength _).settle fun _ => corresponds_pure ⟨rfl, rfl⟩)
      (corresponds_pure ⟨rfl, rfl⟩))

theorem same_fieldAfter (type : TypeRef) : bridge.Keeps (fieldAfter type) Same := by
  intro symbols _
  have hsuffix : Corresponds bridge ⟨symbols, true⟩ suffix suffix (Same symbols) :=
    corresponds_suffix.weaken fun _ _ _ hform => ⟨hform.1, by rw [hform.2]⟩
  exact corresponds_eat_ite (settled_localName.same.map _)
    (settled_localName.settle fun _ => hsuffix.map _)

theorem same_structField : bridge.Keeps structField Same :=
  (same_typeRef.then fun type _ => same_fieldAfter type).then fun _ _ =>
    (same_return _).expect _

theorem same_label : bridge.Keeps label Same := by
  refine corresponds_next fun _ _ token _ _ => ?_
  cases token with
  | identifier _ | typeName _ | constant _ | literal _ | mark _ =>
    exact corresponds_fail fun _ => rfl
  | keyword keyword =>
    cases keyword with
    | caseLabel => exact settled_intExpr.same.map _
    | defaultLabel => exact same_return _
    | _ => exact corresponds_fail fun _ => rfl

theorem same_arm (label : Label) : bridge.Keeps (arm label) Same := by
  refine corresponds_peek fun found => ?_
  split
  · exact same_return _
  · refine same_typeRef.then fun type _ => corresponds_peek fun found => ?_
    split
    · exact same_return _
    · exact (same_fieldAfter type).map _

theorem same_unionCase : bridge.Keeps unionCase Same := by
  refine same_label.then fun label _ => ((same_arm label).then fun case _ => ?_).expect _
  refine (corresponds_eat _).bind ?_
  rintro _ _ _ ⟨rfl, rfl⟩
  exact same_return case

theorem same_procDecl : bridge.Keeps procDecl Same :=
  same_typeRef.then fun _ _ => settled_localName.settle fun _ =>
    (same_typeRef.then fun _ _ => ((settled_intExpr.settle fun _ =>
      (same_return _).expect _).expect _).expect _).expect _

theorem same_versionDecl : bridge.Keeps versionDecl Same :=
  (settled_localName.settle fun _ =>
    ((settled_items repeatable_procDecls (fun _ _ => same_procDecl)
      fun _ _ => ends_untilToken _).settle fun _ =>
        (settled_intExpr.settle fun _ =>
          (same_return _).expect _).expect _).expect _).expect _

theorem same_programDecl : bridge.Keeps programDecl Same :=
  settled_localName.settle fun _ =>
    ((settled_items repeatable_versionDecls (fun _ _ => same_versionDecl)
      fun _ _ => ends_untilToken _).settle fun _ =>
        (settled_intExpr.same.map _).expect _).expect _

/-! ### Names -/

/-- A known name is refused, and any other is not known. -/
theorem corresponds_newName :
    Corresponds bridge ⟨symbols, fresh⟩ newName newName (SameNew bridge.Place symbols) := by
  refine corresponds_next fun span span' token hspan hlexeme => ?_
  cases token with
  | identifier name =>
    obtain ⟨lexeme, hlexeme⟩ := hlexeme
    exact corresponds_pure ⟨⟨rfl, hspan⟩, Symbols.classify_eq_identifier hlexeme, rfl⟩
  | typeName name | constant name =>
    exact fun _ _ hstart => .error (bridge.known name hstart hspan)
  | literal _ | keyword _ | mark _ => exact corresponds_fail fun _ => rfl

/-- After the name of a new declaration, steps may rely on it. -/
theorem Corresponds.newName {step : Located String → Parse α}
    {step' : Located String → Rule σ ε α} {R : Relation α α}
    (h : ∀ name name', name.value = name'.value → symbols.classOf? name.value = none →
      Corresponds bridge ⟨symbols, true⟩ (step name) (step' name') R) :
    Corresponds bridge ⟨symbols, fresh⟩ (newName >>= step) (newName >>= step')
      R := by
  refine corresponds_newName.bind ?_
  rintro name name' _ ⟨hsame, hnone, rfl⟩
  exact h name name' hsame.value hnone

section Registration

variable {name name' : Located String} (hsame : name.value = name'.value)
  (hnone : symbols.classOf? name.value = none)
include hsame hnone

/-- **A name that was not known is not taken**, so what would be done then
does not matter. -/
theorem corresponds_register :
    Corresponds bridge ⟨symbols, true⟩ (register name) (register name') SameValue := by
  -- The names known are those of `symbols` still, as they were when the name was read.
  intro start start' hstart
  obtain ⟨hknown, hknown'⟩ := bridge.symbols_eq hstart
  rw [register_of_new hknown hnone, register_of_new hknown' (hsame ▸ hnone), ← hsame]
  exact .ok rfl (bridge.know _ hstart rfl)

/-- Registering one constant under two names. -/
theorem corresponds_registerConstant (value : IntExpr) :
    Corresponds bridge ⟨symbols, true⟩ (registerConstant name value)
      (registerConstant name' value) SameValue := by
  intro start start' hstart
  obtain ⟨hknown, hknown'⟩ := bridge.symbols_eq hstart
  rw [registerConstant_of_new hknown hnone, registerConstant_of_new hknown' (hsame ▸ hnone),
    ← hsame]
  exact .ok rfl (bridge.know _ hstart rfl)

/-- A declaration of a type, whose name becomes known at its end. -/
theorem corresponds_registered (make : String → α) :
    Corresponds bridge ⟨symbols, true⟩ (register name >>= fun _ => pure (make name.value))
      (register name' >>= fun _ => pure (make name'.value)) SameValue :=
  (corresponds_register hsame hnone).bind fun _ _ _ _ =>
    corresponds_pure (congrArg make hsame)

/-- The same with the semicolon after it. -/
theorem corresponds_registeredClosed (make : String → α) :
    Corresponds bridge ⟨symbols, true⟩
      (register name >>= fun _ => expect (.mark .semicolon) >>= fun _ =>
        pure (make name.value))
      (register name' >>= fun _ => expect (.mark .semicolon) >>= fun _ =>
        pure (make name'.value))
      SameValue := by
  refine (corresponds_register hsame hnone).bind ?_
  rintro _ _ ⟨known, fresh⟩ -
  exact Corresponds.expect (corresponds_pure (congrArg make hsame)) _

end Registration

/-! ### Declarations -/

theorem corresponds_constDecl : bridge.Keeps constDecl fun _ => SameValue :=
  .newName fun _ _ hsame hnone => (settled_intExpr.settle fun value =>
    (corresponds_registerConstant hsame hnone value).bind fun _ _ _ _ =>
      corresponds_pure (congrArg (ConstDecl.mk · value) hsame)).expect _

theorem same_enumMember : bridge.Keeps enumMember Same := by
  refine .newName fun name name' hsame _ => ?_
  rw [hsame]
  exact (settled_intExpr.same.map _).expect _

theorem ends_moreMembers : bridge.Keeps moreMembers (Ends · true) :=
  corresponds_eat_ite (corresponds_pure ⟨rfl, rfl, fun _ => rfl⟩)
    (Corresponds.expect (corresponds_pure ⟨rfl, rfl, fun _ => rfl⟩) _)

theorem corresponds_enumDecl : bridge.Keeps enumDecl fun _ => SameValue :=
  .newName fun _ _ hsame hnone =>
    ((settled_items repeatable_enumMembers (fun _ _ => same_enumMember)
      fun _ _ => ends_moreMembers).settle fun members =>
        corresponds_registered hsame hnone fun name => EnumDecl.mk name members).expect _

theorem corresponds_structDecl : bridge.Keeps structDecl fun _ => SameValue :=
  .newName fun _ _ hsame hnone =>
    ((settled_items repeatable_structFields (fun _ _ => same_structField)
      fun _ _ => ends_untilToken _).settle fun fields =>
        corresponds_registered hsame hnone fun name => StructDecl.mk name fields).expect _

theorem corresponds_unionDecl : bridge.Keeps unionDecl fun _ => SameValue :=
  .newName fun _ _ hsame hnone =>
    ((same_typeRef.then fun type _ => settled_localName.settle fun tag =>
      (((settled_items repeatable_unionCases (fun _ _ => same_unionCase)
        fun _ _ => ends_untilToken _).settle fun cases =>
          corresponds_registered hsame hnone fun name =>
            UnionDecl.mk name ⟨type, tag⟩ cases).expect _).expect _).expect _).expect _

/-! ### Statements -/

/-- A declaration that a function makes of its parts. -/
theorem Corresponds.make {step' : Rule σ ε α}
    (h : Corresponds bridge point step step' SameValue) (make : α → Decl) :
    Corresponds bridge point (step >>= fun value => pure (make value))
      (step' >>= fun value => pure (make value)) SameValue := by
  refine h.bind ?_
  rintro value _ after rfl
  exact corresponds_pure rfl

/-- A declaration and the semicolon after it. -/
theorem Corresponds.closed {step' : Rule σ ε α}
    (h : Corresponds bridge point step step' SameValue) :
    Corresponds bridge point
      (step >>= fun decl => Parser.expect (.mark .semicolon) >>= fun _ => pure decl)
      (step' >>= fun decl => Parser.expect (.mark .semicolon) >>= fun _ => pure decl)
      SameValue := by
  refine h.bind ?_
  rintro decl _ ⟨known, fresh⟩ rfl
  exact Corresponds.expect (corresponds_pure rfl) _

/-- **A type definition and its semicolon.**  Where the name has no suffix,
the token after it was looked at before the name became known. -/
theorem corresponds_typedefDecl :
    Corresponds bridge ⟨symbols, fresh⟩
      ((typedefDecl >>= fun field => pure (.typeDef field)) >>= fun decl =>
        expect (.mark .semicolon) >>= fun _ => pure decl)
      ((typedefDecl >>= fun field => pure (.typeDef field)) >>= fun decl =>
        expect (.mark .semicolon) >>= fun _ => pure decl)
      (SameValue : Relation Decl Decl) := by
  simp only [typedefDecl, bind_assoc]
  refine same_typeRef.then fun type _ => (corresponds_eat _).bind ?_
  rintro found _ _ ⟨rfl, rfl⟩
  cases found with
  | true =>
    simp only [if_true, bind_assoc, pure_bind]
    exact .newName fun _ _ hsame hnone =>
      corresponds_registeredClosed hsame hnone fun name => Decl.typeDef ⟨name, type, .pointer⟩
  | false =>
    simp only [Bool.false_eq_true, if_false, bind_assoc, pure_bind]
    refine .newName fun name name' hsame hnone => corresponds_suffix.bind ?_
    rintro form _ _ ⟨rfl, rfl⟩
    by_cases hform : form = .plain
    · subst hform
      intro start start' hstart
      have houtcomes := bridge.plainEnd (Decl.typeDef ⟨name.value, type, .plain⟩) hstart rfl
        hsame hnone
      simpa only [plainEnd, if_true, bind_assoc, pure_bind, hsame] using houtcomes
    · simp only [hform, if_false, bind_assoc, pure_bind, ne_eq,
        not_false_eq_true, decide_true]
      exact corresponds_registeredClosed hsame hnone fun name =>
        Decl.typeDef ⟨name, type, form⟩

/-- **A statement**, whatever it declares. -/
theorem corresponds_statement : bridge.Keeps statement fun _ => SameValue := by
  simp only [statement, decl, bind_assoc]
  refine corresponds_next fun _ _ token _ _ => ?_
  have hfail : ∀ {error : SyntaxError} {point : Point},
    (∀ known, error.renamed known = error) →
      Corresponds bridge point (fail error) (fail error) (SameValue : Relation Decl Decl) :=
    corresponds_fail
  cases token with
  | identifier _ | typeName _ | constant _ | literal _ | mark _ =>
    exact (hfail fun _ => rfl).closed
  | keyword keyword =>
    cases keyword with
    | const => exact (corresponds_constDecl.make _).closed
    | enum => exact (corresponds_enumDecl.make _).closed
    | struct => exact (corresponds_structDecl.make _).closed
    | union => exact (corresponds_unionDecl.make _).closed
    | typeDef => exact corresponds_typedefDecl
    | program => exact (same_programDecl.value.make _).closed
    | _ => exact (hfail fun _ => rfl).closed

/-- **The whole parser**, on a cursor and on a source that a bridge leads
to.  At its end a token was looked for. -/
theorem corresponds_file :
    Corresponds bridge ⟨symbols, fresh⟩ file file
      fun (decls decls' : List Decl) after => decls = decls' ∧ after.fresh = false := by
  have hend : ∀ symbols fresh, Corresponds bridge ⟨symbols, fresh⟩ untilEnd untilEnd
      (Ends symbols false) :=
    fun _ _ => corresponds_peek fun _ => corresponds_pure ⟨rfl, rfl, fun _ => rfl⟩
  refine (corresponds_oneOrMore (fun _ => True) (fun _ _ _ => ?_) hend repeatable_statements
    trivial).weaken fun _ _ _ hsame => ⟨hsame.1, hsame.2.2⟩
  exact corresponds_statement.weaken fun _ _ _ hsame => ⟨hsame, trivial⟩

/-! ### Another conduct towards names -/

/-- What is reported where a new name is known already, and what is done
where a name that is to be made known is taken. -/
structure Refusal where
  known : String → SyntaxError
  taken : Located String → Parse Unit

/-- In both places the name is reported as declared already. -/
def Refusal.redeclared : Refusal where
  known := .redeclared
  taken name := fun _ => .error (Parser.redeclared name)

/-- A cursor whose conduct towards names is another. -/
def Refusing (_ : Refusal) : Type := Cursor

instance (refusal : Refusal) : TokenSource (Refusing refusal) (Located SyntaxError) where
  symbols := Cursor.symbols
  know symbols (cursor : Cursor) := { cursor with symbols := symbols }
  limit (cursor : Cursor) := cursor.rest.length
  peek (cursor : Cursor) := .ok (cursor.peek, cursor)
  next := Cursor.next
  ahead := Cursor.ahead
  failure error (cursor : Cursor) := ⟨cursor.last, error⟩
  known name _ := ⟨name.span, refusal.known name.value⟩
  taken := refusal.taken

/-- The parser with another conduct towards names. -/
def fileWith (refusal : Refusal) : Parse (List Decl) :=
  (file : Rule (Refusing refusal) (Located SyntaxError) (List Decl))

/-- **With its own conduct it is the parser.** -/
theorem fileWith_redeclared : fileWith .redeclared = file := rfl

variable {Place : Span → Span → Prop} {refusal : Refusal}

/-- The same lexemes at places that correspond, with the names of `symbols`
known. -/
inductive Cursor.Moved (Place : Span → Span → Prop) (symbols : Symbols) :
    Cursor → Cursor → Prop where
  | intro {rest rest' last last'} (hrest : List.Forall₂ (Located.Moved Place) rest rest')
      (hlast : Place last last') :
      Cursor.Moved Place symbols ⟨rest, symbols, last⟩ ⟨rest', symbols, last'⟩

section PlainEnd

variable {name : Located String} (value : α) (rest : List (Located Lexeme)) (last : Span)

/-- A type definition does not end with the lexemes. -/
theorem plainEnd_nil (hname : symbols.classOf? name.value = none) :
    (plainEnd name value : Rule (Refusing refusal) _ α) (Cursor.mk [] symbols last) =
      .error ⟨last, .endOfInput⟩ := by
  have hregister :
    (register name : Rule (Refusing refusal) _ Unit) (Cursor.mk [] symbols last) =
    _ := register_of_new rfl hname
  change ((register name : Rule (Refusing refusal) _ Unit) (Cursor.mk [] symbols last) >>=
    _) = _
  rw [hregister]
  rfl

/-- A new name before a semicolon is registered. -/
theorem plainEnd_semicolon (hname : symbols.classOf? name.value = none) (span : Span) :
    (plainEnd name value : Rule (Refusing refusal) _ α)
        (Cursor.mk (⟨span, .mark .semicolon⟩ :: rest) symbols last) =
      .ok (value, Cursor.mk rest
        { symbols with classes := symbols.classes.insert name.value .type } span) := by
  have hregister : (register name : Rule (Refusing refusal) _ Unit)
      (Cursor.mk (⟨span, .mark .semicolon⟩ :: rest) symbols last) = _ :=
        register_of_new rfl hname
  change ((register name : Rule (Refusing refusal) _ Unit)
      (Cursor.mk (⟨span, .mark .semicolon⟩ :: rest) symbols last) >>= _) = _
  rw [hregister]
  rfl

/-- Before anything else it is a syntax error. -/
theorem plainEnd_of_ne {lexeme : Located Lexeme}
    (hne : symbols.classify lexeme.value ≠ .mark .semicolon) :
    (plainEnd name value : Rule (Refusing refusal) _ α)
        (Cursor.mk (lexeme :: rest) symbols last) =
      .error ⟨lexeme.span,
        .unexpected (.mark .semicolon) (symbols.classify lexeme.value)⟩ := by
  have hahead : (ahead (.mark .semicolon) : Rule (Refusing refusal) _ Unit)
      (Cursor.mk (lexeme :: rest) symbols last) =
        .error ⟨lexeme.span,
          .unexpected (.mark .semicolon) (symbols.classify lexeme.value)⟩ :=
    if_neg hne
  change ((ahead (.mark .semicolon) : Rule (Refusing refusal) _ Unit) _ >>= _) = _
  rw [hahead]
  rfl

end PlainEnd

/-- The bridge to the same lexemes at other places, with another conduct. -/
def moved (Place : Span → Span → Prop) (refusal : Refusal) :
    Bridge (Refusing refusal) (Located SyntaxError) where
  State point := Cursor.Moved Place point.symbols
  Failure error error' :=
    Place error.span error'.span ∧ error'.value = error.value.renamed refusal.known
  Place := Place
  symbols_eq := by
    rintro _ _ _ ⟨-, -⟩
    exact ⟨rfl, rfl⟩
  length_le := by
    rintro _ _ _ ⟨hrest, -⟩
    exact Nat.le_of_eq hrest.length_eq
  know := by
    rintro _ _ _ symbols ⟨hrest, hlast⟩ -
    exact ⟨hrest, hlast⟩
  peek := by
    rintro point _ _ ⟨hrest, hlast⟩
    refine ⟨_, ?_, hrest, hlast⟩
    cases hrest with
    | nil => rfl
    | cons hlexeme _ =>
      have hsame := congrArg point.symbols.classify hlexeme.value
      exact congrArg (fun found => Except.ok (some found, _)) hsame.symm
  next := by
    rintro point _ _ ⟨hrest, hlast⟩
    cases hrest with
    | nil => exact .error ⟨hlast, rfl⟩
    | cons hlexeme hrest =>
      exact .ok ⟨⟨congrArg point.symbols.classify hlexeme.value, hlexeme.span⟩, ⟨_, rfl⟩, rfl⟩
        ⟨hrest, hlexeme.span⟩
  failure := by
    rintro _ _ _ error ⟨-, hlast⟩ herror
    exact ⟨hlast, (herror _).symm⟩
  known := fun _ _ hspan => ⟨hspan, rfl⟩
  plainEnd := by
    rintro point _ _ name name' α value ⟨hrest, hlast⟩ - hsame hnone
    have hnone' : point.symbols.classOf? name'.value = none := hsame ▸ hnone
    change Outcomes _ _ _ ((plainEnd name value : Rule (Refusing .redeclared) _ α) _) _
    cases hrest with
    | nil =>
      rw [plainEnd_nil _ _ hnone, plainEnd_nil _ _ hnone']
      exact .error ⟨hlast, rfl⟩
    | @cons lexeme lexeme' _ _ hlexeme hrest =>
      obtain ⟨span, found⟩ := lexeme
      obtain ⟨span', _⟩ := lexeme'
      obtain ⟨rfl, hspan⟩ := hlexeme
      by_cases hfound : found = .mark .semicolon
      · subst hfound
        rw [plainEnd_semicolon _ _ _ hnone, plainEnd_semicolon _ _ _ hnone', ← hsame]
        exact @Outcomes.ok _ _ _ _ _ _ _ _ _ _ _ ⟨_, true⟩ rfl ⟨hrest, hspan⟩
      · have hne : point.symbols.classify found ≠ .mark .semicolon :=
          mt Symbols.classify_eq_mark.mp hfound
        rw [plainEnd_of_ne _ _ _ hne, plainEnd_of_ne _ _ _ hne]
        exact .error ⟨hspan, rfl⟩

end Parser

theorem SyntaxError.renamed_redeclared (error : SyntaxError) :
    error.renamed Refusal.redeclared.known = error := by
  cases error <;> rfl

end Xdr
