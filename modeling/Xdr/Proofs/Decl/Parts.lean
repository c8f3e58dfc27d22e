import Xdr.Proofs.Decl.Grammar
import Xdr.Proofs.Decl.Recognition

/-!
# The parts of declarations

Each step of the parser below a declaration recognizes the spellings that
the corresponding rule of the grammar gives.

## Main Statements

* `Parser.reads_typeRef`, `Parser.reads_field` — types and fields
* `Parser.reads_items` — items up to a closing bracket
* `Parser.reads_enumMembers`, `Parser.reads_structFields`,
  `Parser.reads_unionCases`, `Parser.reads_versionDecls` — the bodies of
  declarations

## Design Notes

Where a step looks at the token after the last one it takes, its spelling
says what must not stand there: a width after `unsigned`, or a bracket after
a name.  In its place in the grammar, a rule is never followed by such a
token, so these conditions disappear as soon as the next token is known.
-/

namespace Xdr

open Token Xdr.Parser

namespace Grammar

variable {rest tokens : List Token} {type : TypeRef}

/-! ### What may follow -/

/-- No width follows, which would belong to an unsigned type. -/
def NoWidth (rest : List Token) : Prop :=
  ∀ next ∈ rest.head?, next ∉ [.keyword .hyper, .keyword .int, .keyword .long]

/-- No bracket follows, which would belong to a field that is not an array. -/
def NoBracket (rest : List Token) : Prop :=
  ∀ next ∈ rest.head?, next ∉ [.mark .openSquare, .mark .less]

theorem noWidth_iff :
    NoWidth rest ↔ rest.head? ≠ some (.keyword .hyper) ∧ rest.head? ≠ some (.keyword .int) ∧
      rest.head? ≠ some (.keyword .long) := by
  cases rest <;> simp [NoWidth]

theorem noBracket_iff : NoBracket rest ↔
    rest.head? ≠ some (.mark .openSquare) ∧ rest.head? ≠ some (.mark .less) := by
  cases rest <;> simp [NoBracket]

theorem noWidth_of_mark (mark : Mark) (rest : List Token) : NoWidth (.mark mark :: rest) := by
  simp [NoWidth]

theorem LocalName.noWidth {name token} (h : LocalName name token) (rest : List Token) :
    NoWidth (token :: rest) := by
  cases h <;> simp [NoWidth]

/-- After the type of a field comes no width. -/
theorem FieldTail.noWidth {field} (h : FieldTail LocalName type field tokens)
    (rest : List Token) : NoWidth (tokens ++ rest) := by
  cases h with
  | pointer _ => exact noWidth_of_mark _ _
  | held hname _ => exact LocalName.noWidth hname _

theorem noWidth_of_endsArm (h : rest.head?.any endsArm) : NoWidth rest := by
  cases rest with
  | nil => simp [NoWidth]
  | cons next rest =>
    rcases (by simpa [endsArm] using h : next = .mark .semicolon ∨ next = .mark .closeCurly)
      with
      rfl | rfl
    · exact noWidth_of_mark _ _
    · exact noWidth_of_mark _ _

/-- The tokens of a type are not empty and end no case. -/
theorem TypeOf.not_endsCase (h : TypeOf type tokens) (rest : List Token) :
    (tokens ++ rest).head?.all endsCase = false := by
  cases h with
  | primitive hprimitive =>
    rename_i keyword
    cases keyword <;> simp_all [endsCase, primitive?]
  | unsigned | unsignedInt | unsignedLong | unsignedHyper | struct _ => simp [endsCase]
  | named hname => cases hname <;> simp [endsCase]

/-- After the type of a field, the arm goes on. -/
theorem FieldTail.not_endsArm {field} (h : FieldTail LocalName type field tokens)
    (rest : List Token) : (tokens ++ rest).head?.any endsArm = false := by
  cases h with
  | pointer _ => simp [endsArm]
  | held hname _ => cases hname <;> simp [endsArm]

end Grammar

namespace Parser

open Grammar

variable {α : Type} {symbols : Symbols}

/-! ### Names and integers -/

/-- A step that takes one token and decides by it. -/
theorem reads_token {step : Located Token → Parse α} {Names : α → Token → Prop}
    (h : ∀ span token, Reads symbols (step ⟨span, token⟩) fun value taken _ =>
      taken = [] ∧ Names value token) :
    Reads symbols (next >>= step) fun value taken _ =>
      ∃ token, taken = [token] ∧ Names value token := by
  refine (recognizes_next fun span token _ => h span token).congr fun value taken rest => ?_
  constructor
  · rintro ⟨token, _, rfl, rfl, hname⟩
    exact ⟨token, rfl, hname⟩
  · rintro ⟨token, rfl, hname⟩
    exact ⟨token, [], rfl, rfl, hname⟩

theorem reads_localName : Reads symbols localName fun name taken _ =>
    ∃ token, taken = [token] ∧ LocalName name token := by
  refine reads_token fun span token => ?_
  cases token with
  | identifier name | typeName name =>
    exact (reads_pure name).congr fun _ _ _ => by simp [localName_iff, and_comm, eq_comm]
  | constant _ | literal _ | keyword _ | mark _ =>
    exact (recognizes_fail _ _).congr fun _ _ _ => by simp [localName_iff]

theorem reads_intExpr : Reads symbols intExpr fun value taken _ =>
    ∃ token, taken = [token] ∧ ValueOf value token := by
  refine reads_token fun span token => ?_
  cases token with
  | literal text =>
    exact (reads_pure (IntExpr.literal text)).congr fun _ _ _ =>
      by simp [valueOf_iff, and_comm]
  | constant name | identifier name =>
    exact (reads_pure (IntExpr.name name)).congr fun _ _ _ => by simp [valueOf_iff, and_comm]
  | typeName _ | keyword _ | mark _ =>
    exact (recognizes_fail _ _).congr fun _ _ _ => by simp [valueOf_iff]

theorem reads_structType : Reads symbols structType fun type taken _ =>
    ∃ token, taken = [token] ∧ ∃ name, LocalName name token ∧ type = .named name := by
  refine reads_token fun span token => ?_
  cases token with
  | identifier name | typeName name =>
    exact (reads_pure (TypeRef.named name)).congr fun _ _ _ =>
      by simp [localName_iff, and_comm]
  | constant _ | literal _ | keyword _ | mark _ =>
    exact (recognizes_fail _ _).congr fun _ _ _ => by simp [localName_iff]

/-! ### Types -/

/-- The type after `unsigned`, which may be empty. -/
theorem reads_unsignedType : Reads symbols unsignedType fun type taken rest =>
    TypeOf type (.keyword .unsigned :: taken) ∧ (taken = [] → NoWidth rest) := by
  refine (recognizes_eat_ite (reads_pure _) (recognizes_eat_ite (reads_pure _)
    (recognizes_eat_ite (reads_pure _) (reads_pure _)))).congr fun type taken rest => ?_
  constructor
  · rintro (⟨_, rfl, rfl, rfl⟩ | ⟨hhyper, ⟨_, rfl, rfl, rfl⟩ | ⟨hint, ⟨_, rfl, rfl, rfl⟩ |
      ⟨hlong, rfl, rfl⟩⟩⟩)
    · exact ⟨.unsignedHyper, nofun⟩
    · exact ⟨.unsignedInt, nofun⟩
    · exact ⟨.unsignedLong, nofun⟩
    · exact ⟨.unsigned, fun _ => noWidth_iff.mpr ⟨hhyper, hint, hlong⟩⟩
  · rintro ⟨htype, hwidth⟩
    -- Of the rules for types, those for `unsigned` are left.
    rcases typeOf_cons.mp htype with ⟨_, _, h, hprimitive⟩ |
      ⟨_, ⟨rfl, rfl⟩ | ⟨rfl, rfl⟩ | ⟨rfl, rfl⟩ | ⟨rfl, rfl⟩⟩ | ⟨_, _, h, _⟩ | ⟨h, _⟩
    · cases h
      cases hprimitive
    · obtain ⟨hhyper, hint, hlong⟩ := noWidth_iff.mp (hwidth rfl)
      exact .inr ⟨hhyper, .inr ⟨hint, .inr ⟨hlong, rfl, rfl⟩⟩⟩
    · simp
    · simp
    · simp
    · cases h
    · cases h

/-- A type, as far as its width goes. -/
theorem reads_typeRef : Reads symbols typeRef fun type taken rest =>
    TypeOf type taken ∧ (taken = [.keyword .unsigned] → NoWidth rest) := by
  refine (@recognizes_next _ symbols _ _
    (fun token type taken rest => TypeOf type (token :: taken) ∧
      (token :: taken = [.keyword .unsigned] → NoWidth rest))
    fun span token _ => ?_).congr fun type taken rest => ?_
  · cases token with
    | identifier name | typeName name =>
      exact (reads_pure (TypeRef.named name)).congr fun _ _ _ => by
        simp [typeOf_cons, localName_iff, and_comm]
    | constant _ | literal _ | mark _ =>
      exact (recognizes_fail _ _).congr fun _ _ _ => by simp [typeOf_cons, localName_iff]
    | keyword keyword =>
      cases keyword with
      | unsigned =>
        exact reads_unsignedType.congr fun _ _ _ => by simp
      | struct =>
        refine reads_structType.congr fun _ _ _ => ?_
        simp [typeOf_cons, localName_iff, primitive?]
      | int | long | hyper | float | double | bool | string | opaqueData | netobj | void =>
        refine (reads_pure _).congr fun _ _ _ => ?_
        simp [typeOf_cons, localName_iff, primitive?, and_comm, eq_comm]
      | const | enum | union | typeDef | switch | caseLabel | defaultLabel |
        program | version =>
        refine (recognizes_fail _ _).congr fun _ _ _ => ?_
        simp [typeOf_cons, localName_iff, primitive?]
  · constructor
    · rintro ⟨token, back, rfl, htype⟩
      exact htype
    · rintro ⟨htype, hwidth⟩
      cases taken with
      | nil => cases htype
      | cons token back => exact ⟨token, back, rfl, htype, hwidth⟩

/-! ### Fields -/

/-- The length of an array, up to its bracket. -/
theorem reads_arrayLength (mark : Mark) :
    Reads symbols (arrayLength (.mark mark)) fun length taken _ =>
    ∃ middle, taken = middle ++ [.mark mark] ∧ LengthOf length middle := by
  refine (recognizes_eat_ite (reads_pure _) (reads_intExpr.bind fun value =>
    (reads_pure (some value)).expect (.mark mark))).congr fun length taken rest => ?_
  constructor
  · rintro (⟨_, rfl, rfl, rfl⟩ |
      ⟨_, value, _, _, rfl, ⟨token, rfl, hvalue⟩, _, rfl, rfl, rfl⟩)
    · exact ⟨[], rfl, .none⟩
    · exact ⟨[token], rfl, .some hvalue⟩
  · rintro ⟨_, rfl, _ | ⟨hvalue⟩⟩
    · exact .inl ⟨[], rfl, rfl, rfl⟩
    · refine .inr ⟨?_, _, _, _, rfl, ⟨_, rfl, hvalue⟩, _, rfl, rfl, rfl⟩
      cases hvalue <;> simp

/-- What may follow the name of a field. -/
theorem reads_suffix : Reads symbols suffix fun form taken rest =>
    SuffixOf form taken ∧ (form = .plain → NoBracket rest) := by
  refine (recognizes_eat_ite ((reads_arrayLength .closeSquare).map fun length => Form.array
    length true) (recognizes_eat_ite ((reads_arrayLength .greater).map fun length =>
      Form.array length false) (reads_pure Form.plain))).congr fun form taken rest => ?_
  constructor
  · rintro (⟨_, rfl, length, rfl, middle, rfl, hlength⟩ |
      ⟨hsquare, ⟨_, rfl, length, rfl, middle, rfl, hlength⟩ | ⟨hless, rfl, rfl⟩⟩)
    · exact ⟨.fixed hlength, nofun⟩
    · exact ⟨.bounded hlength, nofun⟩
    · exact ⟨.plain, fun _ => noBracket_iff.mpr ⟨hsquare, hless⟩⟩
  · rintro ⟨_ | hlength | hlength, hbracket⟩
    · obtain ⟨hsquare, hless⟩ := noBracket_iff.mp (hbracket rfl)
      exact .inr ⟨hsquare, .inr ⟨hless, rfl, rfl⟩⟩
    · exact .inl ⟨_, rfl, _, rfl, _, rfl, hlength⟩
    · exact .inr ⟨by simp, .inl ⟨_, rfl, _, rfl, _, rfl, hlength⟩⟩

/-- A field after its type. -/
theorem reads_fieldAfter (type : TypeRef) :
    Reads symbols (fieldAfter type) fun field taken rest =>
    FieldTail LocalName type field taken ∧ (field.form = .plain → NoBracket rest) := by
  refine (recognizes_eat_ite (reads_localName.map fun name => Field.mk name type .pointer)
    (reads_localName.bind fun name => reads_suffix.map fun form =>
      Field.mk name type form)).congr fun field taken rest => ?_
  constructor
  · rintro (⟨_, rfl, name, rfl, token, rfl, hname⟩ |
      ⟨_, name, _, back, rfl, ⟨token, rfl, hname⟩, form, rfl, hform, hbracket⟩)
    · exact ⟨.pointer hname, nofun⟩
    · exact ⟨.held hname hform, hbracket⟩
  · rintro ⟨hname | ⟨hname, hform⟩, hbracket⟩
    · exact .inl ⟨_, rfl, _, rfl, _, rfl, hname⟩
    · refine .inr ⟨?_, _, _, _, rfl, ⟨_, rfl, hname⟩, _, rfl, hform, hbracket⟩
      cases hname <;> simp

theorem reads_field : Reads symbols field fun field taken rest =>
    FieldOf LocalName field taken ∧ (field.form = .plain → NoBracket rest) := by
  refine (reads_typeRef.bind fun type => reads_fieldAfter type).congr fun field taken rest =>
    ?_
  constructor
  · rintro ⟨type, front, back, rfl, ⟨htype, _⟩, htail, hbracket⟩
    exact ⟨.mk htype htail, hbracket⟩
  · rintro ⟨⟨htype, htail⟩, hbracket⟩
    exact ⟨_, _, _, rfl, ⟨htype, fun _ => htail.noWidth rest⟩, htail, hbracket⟩

/-! ### Lists -/

theorem reads_untilToken (token : Token) :
    Reads symbols (untilToken token) fun found taken rest =>
    if found then taken = [] ∧ rest.head? ≠ some token else taken = [token] := by
  refine ((reads_eat token).map fun found => !found).congr fun found taken rest => ?_
  constructor
  · rintro ⟨eaten, rfl, heaten⟩
    cases eaten <;> simpa using heaten
  · intro hfound
    refine ⟨!found, by simp, ?_⟩
    cases found <;> simpa using hfound

/-- The spellings that end with a closing bracket, before which `Body`
holds. -/
abbrev Braced (Body : α → List Token → Prop) : Spelling α := fun value taken _ =>
  ∃ body, taken = body ++ [.mark .closeCurly] ∧ Body value body

section Items

variable {spelling : Spelling α} {Item : Token → α → List Token → Prop} {Start : Token → Prop}
  (hstart : ∀ {next value taken}, Item next value taken → ∃ first back,
    taken = first :: back ∧ Start first) (hclose : ¬ Start (.mark .closeCurly))
  (hsound : ∀ {value taken next rest},
    spelling value taken (next :: rest) → Item next value taken)
  (hcomplete : ∀ {value taken next rest}, Start next ∨ next = .mark .closeCurly →
    Item next value taken → spelling value taken (next :: rest))
include hstart hclose hsound hcomplete

/-- Items up to a closing bracket.  The spelling of an item agrees with its
rule before the start of another one and before the bracket, which starts
none. -/
theorem repeated_iff_oneOrMore {values taken rest} :
    Repeated spelling (fun found taken rest =>
        if found then taken = [] ∧ rest.head? ≠ some (.mark .closeCurly)
          else taken = [.mark .closeCurly])
        values taken rest ↔
      Braced (OneOrMore Item (.mark .closeCurly)) values taken rest := by
  constructor
  · intro h
    induction h with
    | last hitem hmore =>
      obtain rfl : _ = [mark .closeCurly] := hmore
      exact ⟨_, rfl, .one (hsound hitem)⟩
    | again hitem hmore _ ih =>
      obtain ⟨rfl, _⟩ : _ = [] ∧ _ := hmore
      obtain ⟨body, rfl, hbody⟩ := ih
      -- The token after this item is the first of the next.
      obtain ⟨first, back, rfl, _⟩ := hbody.start hstart
      exact ⟨_, by simp, .more (hsound hitem) hbody⟩
  · rintro ⟨body, rfl, h⟩
    induction h with
    | one hitem => exact .last (hcomplete (.inr rfl) hitem) rfl
    | @more item items first tokens back hitem hrest ih =>
      obtain ⟨_, _, heq, hfirst⟩ := hrest.start hstart
      cases heq
      -- No item starts with the bracket, so it is not mistaken for the end here.
      have hne : first ≠ .mark .closeCurly := fun heq => hclose (heq ▸ hfirst)
      have hagain :=
        Repeated.again (hcomplete (.inl hfirst) hitem) ⟨rfl, by simpa using hne⟩ ih
      simpa using hagain

/-- Items up to a closing brace. -/
theorem reads_items {item} (hitem : ∀ symbols, Reads symbols item spelling)
    (h : Repeatable item (untilToken (.mark .closeCurly))) :
    Reads symbols (oneOrMore item (untilToken (.mark .closeCurly)))
      (Braced (OneOrMore Item (.mark .closeCurly))) :=
  (reads_oneOrMore hitem (fun _ => reads_untilToken _) h).congr fun _ _ _ =>
    repeated_iff_oneOrMore hstart hclose hsound hcomplete

end Items

/-- Items whose rule does not depend on the token after them. -/
theorem reads_items_of_reads {item : Parse α} {Item : α → List Token → Prop}
    (hitem : ∀ symbols, Reads symbols item fun value taken _ => Item value taken)
    (h : Repeatable item (untilToken (.mark .closeCurly)))
    (hstart : ∀ {value taken}, Item value taken →
      ∃ first back, taken = first :: back ∧ first ≠ .mark .closeCurly) :
    Reads symbols (oneOrMore item (untilToken (.mark .closeCurly)))
      (Braced (OneOrMore (fun _ => Item) (.mark .closeCurly))) :=
  @reads_items _ _ _ (fun _ => Item) (· ≠ .mark .closeCurly) hstart (by simp) id (fun _ =>
    id) _ hitem h

/-! ### The parts of declarations -/

theorem reads_enumMember : Reads symbols enumMember fun member taken _ =>
    MemberOf member taken := by
  refine (recognizes_newName fun _ name _ =>
    (reads_intExpr.map fun value => EnumMember.mk name value).expect (.mark .assign)).congr
    fun member taken rest => ?_
  constructor
  · rintro ⟨name, _, rfl, _, rfl, value, rfl, token, rfl, hvalue⟩
    exact .mk (.identifier name) hvalue
  · rintro ⟨⟨⟩, hvalue⟩
    exact ⟨_, _, rfl, _, rfl, _, rfl, _, rfl, hvalue⟩

theorem reads_moreMembers : Reads symbols moreMembers fun found taken _ =>
    if found then taken = [.mark .comma] else taken = [.mark .closeCurly] := by
  refine (recognizes_eat_ite (reads_pure true)
    ((reads_pure false).expect (.mark .closeCurly))).congr fun found taken rest => ?_
  constructor
  · rintro (⟨_, rfl, rfl, rfl⟩ | ⟨_, _, rfl, rfl, rfl⟩)
    · rfl
    · rfl
  · intro hfound
    cases found with
    | true => exact .inl ⟨[], hfound, rfl, rfl⟩
    | false =>
      obtain rfl : taken = [.mark .closeCurly] := hfound
      exact .inr ⟨by simp, [], rfl, rfl, rfl⟩

theorem repeatable_enumMembers : Repeatable enumMember moreMembers := by
  refine repeatable_of_reads (fun _ => reads_enumMember) (fun _ => reads_moreMembers) ?_
    fun _ _ => rfl
  rintro _ _ _ ⟨⟩
  exact List.cons_ne_nil _ _

/-- The members of an enumeration, between its braces. -/
theorem reads_enumMembers :
    Reads symbols (oneOrMore enumMember moreMembers) (Braced MembersOf) := by
  refine (reads_oneOrMore (fun _ => reads_enumMember) (fun _ => reads_moreMembers)
    repeatable_enumMembers).congr fun members taken rest => ⟨fun h => ?_, ?_⟩
  · induction h with
    | last hmember hmore =>
      obtain rfl : _ = [mark .closeCurly] := hmore
      exact ⟨_, rfl, .one hmember⟩
    | again hmember hmore _ ih =>
      obtain rfl : _ = [mark .comma] := hmore
      obtain ⟨body, rfl, hbody⟩ := ih
      exact ⟨_, by simp, .more hmember hbody⟩
  · rintro ⟨body, rfl, h⟩
    induction h with
    | one hmember => exact .last hmember rfl
    | @more member members tokens back hmember _ ih =>
      rw [List.append_assoc]
      exact @Repeated.again _ _ _ _ _ tokens [.mark .comma]
        (back ++ [.mark .closeCurly]) rest hmember rfl ih

theorem reads_structField : Reads symbols structField fun field taken _ =>
    StructField field taken := by
  refine (reads_field.bind fun entry => (reads_pure entry).expect (.mark .semicolon)).congr
    fun field taken rest => ?_
  constructor
  · rintro ⟨entry, front, _, rfl, ⟨hfield, _⟩, _, rfl, rfl, rfl⟩
    exact .mk hfield
  · rintro ⟨hfield⟩
    exact ⟨field, _, _, rfl, ⟨hfield, fun _ => by simp [NoBracket]⟩, _, rfl, rfl, rfl⟩

theorem repeatable_structFields :
    Repeatable structField (untilToken (.mark .closeCurly)) := by
  refine repeatable_of_reads (fun _ => reads_structField) (fun _ => reads_untilToken _) ?_
    fun _ _ => rfl
  rintro _ _ _ ⟨_⟩
  simp

/-- The fields of a structure, between its braces. -/
theorem reads_structFields :
    Reads symbols (oneOrMore structField (untilToken (.mark .closeCurly)))
    (Braced (OneOrMore (fun _ => StructField) (.mark .closeCurly))) := by
  refine reads_items_of_reads (fun _ => reads_structField) repeatable_structFields ?_
  rintro field _ ⟨⟨htype, _⟩⟩
  obtain ⟨first, back, rfl, hfirst⟩ := htype.start
  exact ⟨first, _, rfl, hfirst _⟩

theorem reads_label : Reads symbols label fun label taken _ => LabelOf label taken := by
  refine (@recognizes_next _ symbols _ _ (fun token label taken _ =>
    LabelOf label (token :: taken)) fun span token _ => ?_).congr fun label taken rest => ?_
  · have hfail : ∀ error, (∀ label taken, ¬ LabelOf label (token :: taken)) →
        Reads symbols (fail error) fun label taken _ => LabelOf label (token :: taken) :=
      fun error hnone => (recognizes_fail error _).congr fun label taken _ => by simp [hnone]
    cases token with
    | keyword keyword =>
      cases keyword with
      | caseLabel =>
        refine (reads_intExpr.map fun value =>
          Label.value value).congr fun label taken rest => ?_
        constructor
        · rintro ⟨value, rfl, token, rfl, hvalue⟩
          exact .value hvalue
        · rintro ⟨hvalue⟩
          exact ⟨_, rfl, _, rfl, hvalue⟩
      | defaultLabel =>
        refine (reads_pure Label.otherwise).congr fun label taken rest => ?_
        constructor
        · rintro ⟨rfl, rfl⟩
          exact .otherwise
        · rintro ⟨⟩
          exact ⟨rfl, rfl⟩
      | _ => exact hfail _ nofun
    | _ => exact hfail _ nofun
  · constructor
    · rintro ⟨token, back, rfl, hlabel⟩
      exact hlabel
    · intro hlabel
      cases hlabel with
      | value hvalue => exact ⟨_, _, rfl, .value hvalue⟩
      | otherwise => exact ⟨_, _, rfl, .otherwise⟩

/-- The spellings of an arm.  Other than in the rule, nothing need be left
after it. -/
def ArmSpelling (label : Label) : Spelling Case := fun case taken rest =>
  (case = ⟨label, none, none, .plain⟩ ∧ taken = [] ∧ rest.head?.all endsCase) ∨
  (∃ type, case = ⟨label, some type, none,
    .plain⟩ ∧ TypeOf type taken ∧ rest.head?.any endsArm) ∨
  (∃ field, case = ⟨label, some field.type, some field.name,
    field.form⟩ ∧ FieldOf LocalName field taken ∧ (field.form = .plain → NoBracket rest))

/-- What stands behind the label of a case. -/
theorem reads_arm (label : Label) : Reads symbols (arm label) (ArmSpelling label) := by
  refine (recognizes_peek_ite (reads_pure _) (reads_typeRef.bind fun type =>
    recognizes_peek_ite (reads_pure _) ((reads_fieldAfter type).map _))).congr
      fun case taken rest => ?_
  constructor
  · rintro (⟨hends, rfl, rfl⟩ | ⟨_, type, front, _, rfl, ⟨htype, _⟩, ⟨hends, rfl, rfl⟩ |
      ⟨_, field, rfl, htail, hbracket⟩⟩)
    · exact .inl ⟨rfl, rfl, hends⟩
    · exact .inr (.inl ⟨type, rfl, by simpa using htype, hends⟩)
    · exact .inr (.inr ⟨field, rfl, .mk htype htail, hbracket⟩)
  · rintro (⟨rfl, rfl, hends⟩ | ⟨type, rfl, htype, hends⟩ |
      ⟨field, rfl, ⟨htype, htail⟩, hbracket⟩)
    · exact .inl ⟨hends, rfl, rfl⟩
    · have hwidth : NoWidth ([] ++ rest) := noWidth_of_endsArm hends
      exact .inr ⟨htype.not_endsCase rest, type, taken, [], by simp,
        ⟨htype, fun _ => hwidth⟩, .inl ⟨hends, rfl, rfl⟩⟩
    · refine .inr ⟨?_, _, _, _, rfl, ⟨htype, fun _ => htail.noWidth rest⟩,
        .inr ⟨htail.not_endsArm rest, field, rfl, htail, hbracket⟩⟩
      rw [List.append_assoc]
      exact htype.not_endsCase _

theorem ArmSpelling.armOf {label case taken rest next}
    (h : ArmSpelling label case taken (next :: rest)) : ArmOf label next case taken := by
  rcases h with ⟨rfl, rfl, hends⟩ | ⟨type, rfl, htype, hends⟩ | ⟨field, rfl, hfield, _⟩
  · exact .empty (by simpa [endsCase, or_assoc] using hends)
  · exact .type (by simpa [endsArm] using hends) htype
  · exact .field hfield

/-- Before a token that can follow it, an arm is read as the rule says. -/
theorem armSpelling_of_armOf {label case taken next} (h : ArmOf label next case taken)
    (hnext : next ∈ [.mark .semicolon, .mark .closeCurly, .keyword .caseLabel,
      .keyword .defaultLabel]) (rest : List Token) :
    ArmSpelling label case taken (next :: rest) := by
  cases h with
  | empty _ => exact .inl ⟨rfl, rfl, by simpa [endsCase, or_assoc] using hnext⟩
  | type hends htype => exact .inr (.inl ⟨_, rfl, htype, by simpa [endsArm] using hends⟩)
  | field hfield =>
    refine .inr (.inr ⟨_, rfl, hfield, fun _ => ?_⟩)
    have hbracket : ∀ token ∈ [mark .semicolon, .mark .closeCurly, .keyword .caseLabel,
        .keyword .defaultLabel], token ∉ [mark .openSquare, .mark .less] := by decide
    simpa [NoBracket] using hbracket next hnext

/-- The spellings of a case, whose semicolon is taken if it is there. -/
def CaseSpelling : Spelling Case := fun case taken rest =>
  ∃ label front back, LabelOf label front ∧
    ((taken = front ++ .mark .colon :: (back ++ [.mark .semicolon]) ∧
        ArmSpelling label case back (.mark .semicolon :: rest)) ∨
      (taken = front ++ .mark .colon :: back ∧ ArmSpelling label case back rest ∧
        rest.head? ≠ some (.mark .semicolon)))

theorem reads_unionCase : Reads symbols unionCase CaseSpelling := by
  refine (reads_label.bind fun label => ((reads_arm label).bind fun case =>
    (reads_eat (.mark .semicolon)).map fun _ => case).expect (.mark .colon)).congr
    fun case taken rest => ?_
  constructor
  · rintro ⟨label, front, _, rfl, hlabel, _, rfl, case', back, stop, rfl, harm,
      eaten, rfl, heaten⟩
    refine ⟨label, front, back, hlabel, ?_⟩
    cases eaten with
    | true =>
      obtain rfl : stop = [.mark .semicolon] := heaten
      exact .inl ⟨rfl, harm⟩
    | false =>
      obtain ⟨rfl, hhead⟩ : stop = [] ∧ rest.head? ≠ some (.mark .semicolon) := by
        simpa using heaten
      exact .inr ⟨by simp, harm, hhead⟩
  · rintro ⟨label, front, back, hlabel, ⟨rfl, harm⟩ | ⟨rfl, harm, hhead⟩⟩
    · exact ⟨label, front, _, rfl, hlabel, _, rfl, case, back, _, rfl, harm, true, rfl, rfl⟩
    · exact ⟨label, front, _, rfl, hlabel, _, rfl, case, back, [], by simp, harm, false, rfl,
        by simpa using hhead⟩

theorem repeatable_unionCases : Repeatable unionCase (untilToken (.mark .closeCurly)) := by
  refine repeatable_of_reads (fun _ => reads_unionCase) (fun _ => reads_untilToken _) ?_
    fun _ _ => rfl
  rintro _ _ _ ⟨label, front, back, -, ⟨rfl, -⟩ | ⟨rfl, -⟩⟩ <;> simp

/-- The cases of a union, between its braces. -/
theorem reads_unionCases :
    Reads symbols (oneOrMore unionCase (untilToken (.mark .closeCurly)))
    (Braced (OneOrMore CaseOf (.mark .closeCurly))) := by
  refine @reads_items _ _ _ _ (fun first =>
    first = .keyword .caseLabel ∨ first = .keyword .defaultLabel)
    ?_ (by simp) ?_ ?_ _ (fun _ => reads_unionCase) repeatable_unionCases
  · rintro next case _ (⟨hlabel, _⟩ | ⟨hlabel, _⟩) <;>
      obtain ⟨first, _, rfl, hfirst⟩ := hlabel.start
    · exact ⟨first, _, rfl, hfirst⟩
    · exact ⟨first, _, rfl, hfirst⟩
  · rintro case taken next rest ⟨label, front, back, hlabel, ⟨rfl, harm⟩ | ⟨rfl, harm, _⟩⟩
    · exact .closed hlabel harm.armOf
    · exact .bare hlabel harm.armOf
  · rintro case taken next rest hnext (⟨hlabel, harm⟩ | ⟨hlabel, harm⟩)
    · -- A bare case is followed by another case or the bracket, not by a semicolon.
      refine ⟨_, _, _, hlabel, .inr ⟨rfl, armSpelling_of_armOf harm ?_ rest, ?_⟩⟩
      · rcases hnext with (rfl | rfl) | rfl <;> simp
      · rcases hnext with (rfl | rfl) | rfl <;> simp
    · exact ⟨_, _, _, hlabel, .inl ⟨rfl, armSpelling_of_armOf harm (by simp) _⟩⟩

theorem reads_procDecl : Reads symbols procDecl fun proc taken _ => ProcOf proc taken := by
  refine (reads_typeRef.bind fun res => reads_localName.bind fun name =>
    (reads_typeRef.bind fun arg =>
      ((reads_intExpr.bind fun id => (reads_pure (ProcDecl.mk id name arg res)).expect
      (.mark .semicolon)).expect (.mark .assign)).expect (.mark .closeParen)).expect
        (.mark .openParen)).congr
    fun proc taken rest => ?_
  constructor
  · rintro ⟨res, front, _, rfl, ⟨hres, _⟩, name, _, _, rfl, ⟨token, rfl, hname⟩, _, rfl, arg,
      back, _, rfl, ⟨harg, _⟩, _, rfl, _, rfl, id, _, _, rfl, ⟨number, rfl, hid⟩, _,
      rfl, rfl, rfl⟩
    exact .mk hres hname harg hid
  · rintro ⟨hres, hname, harg, hid⟩
    exact ⟨_, _, _, rfl, ⟨hres, fun _ => hname.noWidth _⟩, _, _, _, rfl, ⟨_, rfl, hname⟩, _,
      rfl, _, _, _, rfl, ⟨harg, fun _ => noWidth_of_mark _ _⟩, _, rfl, _, rfl, _, _, _, rfl,
      ⟨_, rfl, hid⟩, _, rfl, rfl, rfl⟩

theorem repeatable_procDecls : Repeatable procDecl (untilToken (.mark .closeCurly)) := by
  refine repeatable_of_reads (fun _ => reads_procDecl) (fun _ => reads_untilToken _) ?_
    fun _ _ => rfl
  rintro _ _ _ ⟨_⟩
  simp

/-- The procedures of a version, between its braces. -/
theorem reads_procDecls : Reads symbols (oneOrMore procDecl (untilToken (.mark .closeCurly)))
    (Braced (OneOrMore (fun _ => ProcOf) (.mark .closeCurly))) := by
  refine reads_items_of_reads (fun _ => reads_procDecl) repeatable_procDecls ?_
  rintro proc _ ⟨hres, _⟩
  obtain ⟨first, back, rfl, hfirst⟩ := hres.start
  exact ⟨first, _, rfl, hfirst _⟩

theorem reads_versionDecl : Reads symbols versionDecl fun version taken _ =>
    VersionOf version taken := by
  refine ((reads_localName.bind fun name => (reads_procDecls.bind fun procs =>
    (reads_intExpr.bind fun number => (reads_pure (VersionDecl.mk name number procs)).expect
      (.mark .semicolon)).expect (.mark .assign)).expect (.mark .openCurly)).expect
      (.keyword .version)).congr fun version taken rest => ?_
  constructor
  · rintro ⟨_, rfl, name, _, _, rfl, ⟨token, rfl, hname⟩, _, rfl, procs, _, _, rfl,
      ⟨body, rfl, hprocs⟩, _, rfl, number, _, _, rfl, ⟨value, rfl, hnumber⟩, _, rfl, rfl, rfl⟩
    exact .mk hname (.mk hprocs) hnumber
  · rintro ⟨hname, ⟨hprocs⟩, hnumber⟩
    exact ⟨_, rfl, _, _, _, rfl, ⟨_, rfl, hname⟩, _, rfl, _, _, _, rfl, ⟨_, rfl, hprocs⟩, _,
      rfl, _, _, _, rfl, ⟨_, rfl, hnumber⟩, _, rfl, rfl, rfl⟩

theorem repeatable_versionDecls :
    Repeatable versionDecl (untilToken (.mark .closeCurly)) := by
  refine repeatable_of_reads (fun _ => reads_versionDecl) (fun _ => reads_untilToken _) ?_
    fun _ _ => rfl
  rintro _ _ _ ⟨_⟩
  exact List.cons_ne_nil _ _

/-- The versions of a program, between its braces. -/
theorem reads_versionDecls :
    Reads symbols (oneOrMore versionDecl (untilToken (.mark .closeCurly)))
    (Braced (OneOrMore (fun _ => VersionOf) (.mark .closeCurly))) := by
  refine reads_items_of_reads (fun _ => reads_versionDecl) repeatable_versionDecls ?_
  rintro version _ ⟨_, _, _⟩
  exact ⟨_, _, rfl, nofun⟩

end Parser
end Xdr
