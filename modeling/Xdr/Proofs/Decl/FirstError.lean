import Xdr.Proofs.Decl.Promptness
import Xdr.Proofs.Decl.Reader
import Xdr.Proofs.Table

/-!
# The place of a syntax error

The parser reports the first lexeme with which no file goes on, or the end
of a source that begins a file.

## Main Statements

* `Symbols.exists_unknown` — there is always a name that is not known
* `Parser.leads_statement` — a statement is reported at its first wrong
  lexeme
* `Parser.file_eq_error`, `Decl.ofLexemes_eq_error` — so is a file, whatever
  follows that lexeme
* `Decl.parse_error_place` — a whole source

## Design Notes

The lemmas of a parser follow its definition, as those about recognition do.
Two steps are completed in a place that their definition does not suggest:
after a name a suffix is completed by an array, since a name alone depends
on what follows, and for the same reason an arm is completed by a pointer.
-/

namespace Xdr

open List Located Nat Xdr.Parser

/-! ### Names that are not known -/

/-- A word of one letter only is the emitted form of itself. -/
theorem spells_replicate {n} (hn : n ≠ 0) :
    Spells (replicate n 'q') (.word (String.ofList (replicate n 'q'))) := by
  obtain ⟨m, rfl⟩ := exists_eq_succ_of_ne_zero hn
  have hword : Word (replicate (m + 1) 'q') := by
    rw [replicate_succ]
    refine .mk (by decide) fun c hc => ?_
    rw [eq_of_mem_replicate hc]
    decide
  have hkeyword : ∀ keyword : Keyword,
      (replicate (m + 1) 'q').map Char.toLower ≠ keyword.spelling.toList := by
    intro keyword h
    have hfirst := congrArg head? h
    rw [replicate_succ, map_cons, head?_cons] at hfirst
    cases keyword <;> simp [Keyword.spelling] at hfirst
  have hfree : escapeWord (String.ofList (replicate (m + 1) 'q')) =
      String.ofList (replicate (m + 1) 'q') := by
    have hreserved : ∀ word ∈ reservedWords, word.toList.head? ≠ some 'q' := by decide +kernel
    rw [escapeWord, if_neg]
    intro h
    refine hreserved _ (contains_iff_mem.mp h) ?_
    rw [String.toList_ofList, replicate_succ, head?_cons]
  have h := Spells.word hword hkeyword
  rwa [hfree] at h

/-- There is always a name that is not known yet. -/
theorem Symbols.exists_unknown (symbols : Symbols) :
    ∃ name, symbols.classOf? name = none ∧ (Lexeme.word name).Spellable := by
  obtain ⟨n, hn⟩ : ∃ n, ∀ entry ∈ symbols.classes, entry.1.length ≤ n := by
    induction symbols.classes with
    | nil => exact ⟨0, nofun⟩
    | cons entry entries ih =>
      obtain ⟨n, hn⟩ := ih
      refine ⟨max entry.1.length n, fun other hother => ?_⟩
      rcases mem_cons.mp hother with rfl | hother
      · exact le_max_left _ _
      · exact le_trans (hn other hother) (le_max_right _ _)
  refine ⟨String.ofList (replicate (n + 1) 'q'), ?_, _, spells_replicate (succ_ne_zero n)⟩
  -- A name longer than all known ones is not known.
  cases hclass : symbols.classOf? (String.ofList (replicate (n + 1) 'q')) with
  | none => rfl
  | some cls =>
    have hlength := hn _ (Table.mem_of_find? hclass)
    simp only [String.length_ofList, length_replicate] at hlength
    exact absurd hlength (not_succ_le_self n)

namespace Parser

open Grammar

variable {α : Type} {symbols : Symbols}

/-- Some identifier may come next. -/
theorem exists_offered_identifier (symbols : Symbols) :
    ∃ name, Offered symbols (.identifier name) := by
  obtain ⟨name, hname, hspellable⟩ := symbols.exists_unknown
  refine ⟨name, .word name, hspellable, ?_⟩
  rw [Symbols.classify, hname]

/-! ### The parts of declarations -/

theorem leads_newName :
    Leads symbols newName fun name after =>
      after = symbols ∧ symbols.classOf? name.value = none := by
  obtain ⟨name, hname⟩ := exists_offered_identifier symbols
  refine leads_next hname fun span token hlexeme => ?_
  cases token with
  | identifier found =>
    obtain ⟨lexeme, hlexeme⟩ := hlexeme
    exact .inl (leads_pure _ ⟨rfl, Symbols.classify_eq_identifier hlexeme⟩)
  | typeName found | constant found =>
    exact .inr ⟨nofun, .redeclared found, nofun, fun _ _ => rfl⟩
  | literal _ | keyword _ | mark _ => exact .inr ⟨nofun, rejects_fail span nofun⟩

theorem leads_localName : Leads symbols localName (Keeps symbols) := by
  obtain ⟨name, hname⟩ := exists_offered_identifier symbols
  refine leads_next hname fun span token _ => ?_
  cases token with
  | identifier _ | typeName _ => exact .inl (leads_return _)
  | constant _ | literal _ | keyword _ | mark _ => exact .inr ⟨nofun, rejects_fail span nofun⟩

theorem leads_intExpr : Leads symbols intExpr (Keeps symbols) := by
  obtain ⟨name, hname⟩ := exists_offered_identifier symbols
  refine leads_next hname fun span token _ => ?_
  cases token with
  | literal _ | constant _ | identifier _ => exact .inl (leads_return _)
  | typeName _ | keyword _ | mark _ => exact .inr ⟨nofun, rejects_fail span nofun⟩

theorem leads_structType : Leads symbols structType (Keeps symbols) := by
  obtain ⟨name, hname⟩ := exists_offered_identifier symbols
  refine leads_next hname fun span token _ => ?_
  cases token with
  | identifier _ | typeName _ => exact .inl (leads_return _)
  | constant _ | literal _ | keyword _ | mark _ => exact .inr ⟨nofun, rejects_fail span nofun⟩

theorem leads_unsignedType : Leads symbols unsignedType (Keeps symbols) :=
  leads_eat_ite (.keyword .hyper)
    (leads_return _) (leads_eat_ite (.keyword .int) (leads_return _)
      (leads_eat_ite (.keyword .long) (leads_return _) (leads_return _).prompt).prompt).prompt

theorem leads_typeRef : Leads symbols typeRef (Keeps symbols) := by
  obtain ⟨name, hname⟩ := exists_offered_identifier symbols
  refine leads_next hname fun span token _ => ?_
  cases token with
  | identifier _ | typeName _ => exact .inl (leads_return _)
  | constant _ | literal _ | mark _ => exact .inr ⟨nofun, rejects_fail span nofun⟩
  | keyword keyword =>
    cases keyword with
    | int | long | hyper | float | double | bool | string | opaqueData | netobj | void =>
      exact .inl (leads_return _)
    | unsigned => exact .inl leads_unsignedType
    | struct => exact .inl leads_structType
    | _ => exact .inr ⟨nofun, rejects_fail span nofun⟩

theorem leads_arrayLength (mark : Mark) :
    Leads symbols (arrayLength (.mark mark)) (Keeps symbols) := by
  have hlength : Leads symbols
      (intExpr >>= fun length => expect (.mark mark) >>= fun _ =>
        pure (some length)) (Keeps symbols) :=
    leads_intExpr.then fun length => (leads_return (some length)).expect (.mark mark)
  exact leads_eat_ite (.mark mark) (leads_return none) hlength.prompt

/-- After a name, an array is complete whatever follows it, and the name
alone is not. -/
theorem Leads.suffix {step : Form → Parse α} {Post : α → Symbols → Prop}
    (hprompt : ∀ form, Prompt symbols (step form) Post Post)
    (hviable : ∀ form, form ≠ .plain → Viable symbols (step form) Post []) :
    Leads symbols (Parser.suffix >>= step) Post := by
  have harray : ∀ (mark : Mark) (fixed : Bool), Leads symbols
      (arrayLength (.mark mark) >>= fun length => pure (Form.array length fixed))
      fun form after => form ≠ .plain ∧ after = symbols :=
    fun mark fixed => (leads_arrayLength mark).then fun length => leads_pure _ ⟨nofun, rfl⟩
  have hkeeps : ∀ (form : Form) after, form ≠ .plain ∧ after = symbols → after = symbols :=
    fun _ _ h => h.2
  have hsuffix : Prompt symbols Parser.suffix (Keeps symbols)
      fun form after => form ≠ .plain ∧ after = symbols := by
    have hfixed := harray .closeSquare true
    have hbounded := harray .greater false
    exact prompt_eat_ite (hfixed.prompt.mono hkeeps) hfixed.viable
      (prompt_eat_ite (hbounded.prompt.mono hkeeps) hbounded.viable (prompt_of_ok (fun _ _ =>
        rfl) rfl))
  refine ⟨hsuffix.bind ?_ ?_,
    (viable_eat_ite (.mark .openSquare) (harray .closeSquare true).viable).bind ?_⟩
  · rintro form _ rfl
    exact hprompt form
  · rintro form _ ⟨hform, rfl⟩
    exact hviable form hform
  · rintro form _ ⟨hform, rfl⟩
    exact hviable form hform

theorem leads_fieldAfter (type : TypeRef) :
    Leads symbols (fieldAfter type) (Keeps symbols) := by
  have hpointer : Leads symbols
      (localName >>= fun name => pure (Field.mk name type .pointer)) (Keeps symbols) :=
    leads_localName.then fun name => leads_return _
  have hheld : Leads symbols
      (localName >>= fun name => suffix >>= fun form =>
        pure (Field.mk name type form)) (Keeps symbols) :=
    leads_localName.then fun name =>
      .suffix (fun form => (leads_return _).prompt) fun form _ => (leads_return _).viable
  exact leads_eat_ite (.mark .times) hpointer hheld.prompt

theorem leads_field : Leads symbols field (Keeps symbols) :=
  leads_typeRef.then leads_fieldAfter

/-! ### Lists -/

theorem prompt_untilToken (token : Token) :
    Prompt symbols (untilToken token) (Keeps symbols) (Keeps symbols) := by
  refine (prompt_eat token).bind ?_ ?_
  · rintro found _ rfl
    exact (leads_return _).prompt
  · rintro found _ ⟨-, rfl⟩
    exact (leads_return _).viable

/-- Items up to a closing bracket. -/
theorem leads_items {item : Parse α} (h : Repeatable item (untilToken (.mark .closeCurly)))
    (hitem : ∀ symbols, Leads symbols item (Keeps symbols)) :
    Leads symbols (oneOrMore item (untilToken (.mark .closeCurly))) (Keeps symbols) := by
  refine leads_oneOrMore h hitem (fun symbols => prompt_untilToken _) fun symbols => ?_
  refine (viable_eat (.mark .closeCurly)).bind ?_
  rintro found _ ⟨rfl, rfl⟩
  exact (leads_pure _ ⟨rfl, rfl⟩).viable

/-! ### The parts of declarations -/

theorem leads_enumMember : Leads symbols enumMember (Keeps symbols) := by
  refine leads_newName.bind ?_
  rintro name _ ⟨rfl, -⟩
  exact (leads_intExpr.then fun value =>
    leads_return (EnumMember.mk name.value value)).expect (.mark .assign)

theorem leads_enumMembers :
    Leads symbols (oneOrMore enumMember moreMembers) (Keeps symbols) := by
  have hmore : ∀ symbols, Leads symbols moreMembers (Keeps symbols) := fun symbols =>
    leads_eat_ite (.mark .comma) (leads_return true)
      ((leads_return false).expect (.mark .closeCurly)).prompt
  refine leads_oneOrMore repeatable_enumMembers (fun symbols => leads_enumMember)
    (fun symbols => (hmore symbols).prompt) fun symbols => ?_
  have hstop : Takes symbols moreMembers [⟨default, .mark .closeCurly⟩] false symbols :=
    fun rest last => ⟨_, rfl⟩
  exact (hstop.viable ⟨rfl, rfl⟩).drop (.mark .closeCurly)

theorem leads_structFields :
    Leads symbols (oneOrMore structField (untilToken (.mark .closeCurly))) (Keeps symbols) :=
  leads_items repeatable_structFields fun _ =>
    leads_field.then fun entry => (leads_return entry).expect (.mark .semicolon)

theorem leads_label : Leads symbols label (Keeps symbols) := by
  refine leads_next (.keyword .defaultLabel) fun span token _ => ?_
  cases token with
  | identifier _ | typeName _ | constant _ | literal _ | mark _ =>
    exact .inr ⟨nofun, rejects_fail span nofun⟩
  | keyword keyword =>
    cases keyword with
    | caseLabel => exact .inl (leads_intExpr.then fun value => leads_return _)
    | defaultLabel => exact .inl (leads_return _)
    | _ => exact .inr ⟨nofun, rejects_fail span nofun⟩

/-- The rest of an arm after its type. -/
theorem leads_armAfter (label : Label) (type : TypeRef) :
    Leads symbols (peek >>= fun found =>
      if found.any endsArm then pure (Case.mk label (some type) none .plain)
      else fieldAfter type >>= fun entry =>
        pure ⟨label, some entry.type, some entry.name, entry.form⟩)
      (Keeps symbols) where
  prompt := by
    refine prompt_peek.bind ?_ fun _ _ => False.elim
    rintro found _ rfl
    split
    · exact (leads_return _).prompt
    · exact ((leads_fieldAfter type).then fun entry => leads_return _).prompt
  viable := by
    -- A star goes on with a field, whatever follows it.
    have hstar : Takes symbols (eat (.mark .times)) [⟨default, .mark .times⟩] true symbols :=
      takes_eat rfl
    have hpointer :
      Viable symbols (fieldAfter type) (Keeps symbols) [⟨default, .mark .times⟩] :=
      hstar.viable_bind (leads_localName.then fun name => leads_return _).viable
    refine @viable_peek _ symbols _ ⟨default, .mark .times⟩ _ (.mark .times)
      (hpointer.bind ?_)
    rintro entry _ rfl
    exact (leads_return _).viable

theorem leads_arm (label : Label) : Leads symbols (arm label) (Keeps symbols) where
  prompt := by
    refine prompt_peek.bind ?_ fun _ _ => False.elim
    rintro found _ rfl
    split
    · exact (leads_return _).prompt
    · exact (leads_typeRef.then (leads_armAfter label)).prompt
  viable := by
    have htype : Takes symbols typeRef [⟨default, .keyword .int⟩] .int symbols :=
      fun rest last => ⟨_, rfl⟩
    exact @viable_peek _ symbols _ ⟨default, .keyword .int⟩ _ (.keyword .int)
      (htype.viable_bind (leads_armAfter label .int).viable)

theorem leads_unionCases :
    Leads symbols (oneOrMore unionCase (untilToken (.mark .closeCurly))) (Keeps symbols) := by
  have hsemicolon : ∀ (symbols : Symbols) (case : Case),
      Leads symbols (eat (.mark .semicolon) >>= fun _ => pure case) (Keeps symbols) := by
    intro symbols case
    refine ⟨(prompt_eat _).bind ?_ ?_, (viable_eat (.mark .semicolon)).bind ?_⟩
    · rintro found _ rfl
      exact (leads_return case).prompt
    · rintro found _ ⟨-, rfl⟩
      exact (leads_return case).viable
    · rintro found _ ⟨-, rfl⟩
      exact (leads_return case).viable
  exact leads_items repeatable_unionCases fun symbols => leads_label.then fun label =>
    ((leads_arm label).then (hsemicolon symbols)).expect (.mark .colon)

theorem leads_procDecls :
    Leads symbols (oneOrMore procDecl (untilToken (.mark .closeCurly))) (Keeps symbols) :=
  leads_items repeatable_procDecls fun _ =>
    leads_typeRef.then fun _ => leads_localName.then fun _ =>
      (leads_typeRef.then fun _ => ((leads_intExpr.then fun _ =>
        (leads_return _).expect (.mark .semicolon)).expect (.mark .assign)).expect
          (.mark .closeParen)).expect (.mark .openParen)

theorem leads_versionDecls :
    Leads symbols (oneOrMore versionDecl (untilToken (.mark .closeCurly))) (Keeps symbols) :=
  leads_items repeatable_versionDecls fun _ =>
    (leads_localName.then fun _ => (leads_procDecls.then fun _ =>
      (leads_intExpr.then fun _ => (leads_return _).expect (.mark .semicolon)).expect
        (.mark .assign)).expect (.mark .openCurly)).expect (.keyword .version)

/-! ### Declarations -/

section Registration

variable {name : Located String} (hname : symbols.classOf? name.value = none)
include hname

/-- A name that was not known becomes that of a type, so that does not fail.
-/
theorem leads_register (value : α) :
    Leads symbols (register name >>= fun _ => pure value) fun _ _ => True := by
  have hleads : Leads symbols _ fun _ _ => True := leads_of_ok (register_eq_ok hname) trivial
  exact hleads.bind fun _ _ _ => leads_pure value trivial

theorem leads_registerConstant (number : IntExpr) (value : α) :
    Leads symbols (registerConstant name number >>= fun _ => pure value) fun _ _ => True := by
  have hleads : Leads symbols _ fun _ _ => True :=
    leads_of_ok (registerConstant_eq_ok hname number) trivial
  exact hleads.bind fun _ _ _ => leads_pure value trivial

end Registration

/-- After the name of a new declaration, a step may rely on it. -/
theorem Leads.newName {step : Located String → Parse α} {Post : α → Symbols → Prop}
    (h : ∀ name, symbols.classOf? name.value = none → Leads symbols (step name) Post) :
    Leads symbols (newName >>= step) Post := by
  refine leads_newName.bind ?_
  rintro name _ ⟨rfl, hname⟩
  exact h name hname

theorem leads_constDecl : Leads symbols constDecl fun _ _ => True :=
  .newName fun _ hname => (leads_intExpr.then fun value =>
    leads_registerConstant hname value _).expect (.mark .assign)

theorem leads_enumDecl : Leads symbols enumDecl fun _ _ => True :=
  .newName fun _ hname =>
    (leads_enumMembers.then fun _ => leads_register hname _).expect (.mark .openCurly)

theorem leads_structDecl : Leads symbols structDecl fun _ _ => True :=
  .newName fun _ hname =>
    (leads_structFields.then fun _ => leads_register hname _).expect (.mark .openCurly)

theorem leads_unionDecl : Leads symbols unionDecl fun _ _ => True :=
  .newName fun _ hname => ((leads_typeRef.then fun _ => leads_localName.then fun _ =>
    ((leads_unionCases.then fun _ => leads_register hname _).expect (.mark .openCurly)).expect
      (.mark .closeParen)).expect (.mark .openParen)).expect (.keyword .switch)

theorem leads_typedefDecl : Leads symbols typedefDecl fun _ _ => True := by
  refine leads_typeRef.then fun type => leads_eat_ite (.mark .times)
    (.newName fun _ hname =>
      leads_register hname _) (Leads.prompt (.newName fun _ hname => ?_))
  refine .suffix (fun form => ?_) fun form hform => ?_
  · split
    · refine (prompt_ahead _).bind ?_ fun _ _ => False.elim
      rintro _ _ rfl
      exact (leads_register hname _).prompt
    · exact (leads_register hname _).prompt
  · rw [if_neg hform]
    exact (leads_register hname _).viable

theorem leads_programDecl : Leads symbols programDecl fun _ _ => True :=
  leads_localName.then fun _ => (leads_versionDecls.then fun _ =>
    (leads_intExpr.then fun _ =>
      leads_pure _ trivial).expect (.mark .assign)).expect (.mark .openCurly)

/-- A declaration that a function makes of its parts. -/
theorem Leads.make {step} (h : Leads symbols step fun _ _ => True) (make : α → Decl) :
    Leads symbols (step >>= fun value => pure (make value)) fun _ _ => True :=
  h.bind fun _ _ _ => leads_pure _ trivial

/-- **Declarations.** -/
theorem leads_decl : Leads symbols decl fun _ _ => True := by
  refine leads_next (.keyword .const) fun span token _ => ?_
  cases token with
  | identifier _ | typeName _ | constant _ | literal _ | mark _ =>
    exact .inr ⟨nofun, rejects_fail span nofun⟩
  | keyword keyword =>
    cases keyword with
    | const => exact .inl (leads_constDecl.make _)
    | enum => exact .inl (leads_enumDecl.make _)
    | struct => exact .inl (leads_structDecl.make _)
    | union => exact .inl (leads_unionDecl.make _)
    | typeDef => exact .inl (leads_typedefDecl.make _)
    | program => exact .inl (leads_programDecl.make _)
    | _ => exact .inr ⟨nofun, rejects_fail span nofun⟩

/-- **A statement** is reported at its first wrong lexeme. -/
theorem leads_statement : Leads symbols statement fun _ _ => True :=
  leads_decl.bind fun _ _ _ => (leads_pure _ trivial).expect (.mark .semicolon)

/-! ### Files -/

/-- A file is a statement and, unless it ends there, a file. -/
theorem file_eq : (file : Parse (List Decl)) = statement >>= fun first =>
    untilEnd >>= fun again =>
    if again then file >>= fun others => pure (first :: others) else pure [first] :=
  repeatable_statements.oneOrMore_eq

end Parser

/-- Lexemes with which a file begins, as others that can be spelled complete
them. -/
def Grammar.Begins (symbols : Symbols) (lexemes : List Lexeme) : Prop :=
  ∃ more decls, (∀ lexeme ∈ more, lexeme.Spellable) ∧ File symbols decls (lexemes ++ more)

namespace Parser

open Grammar

variable {symbols : Symbols} {lexemes : List (Located Lexeme)} {decl : Decl} {last : Span}
    {error : Located SyntaxError}

/-- What can be completed to a statement begins a file. -/
theorem Viable.begins (h : Viable symbols statement (fun _ _ => True) lexemes) :
    Begins symbols (lexemes.map value) := by
  obtain ⟨more, decl, after, hmore, htakes, -⟩ := h
  obtain ⟨last, hok⟩ := htakes [] default
  obtain ⟨taken, htaken, -, hspelled⟩ := recognizes_statement.sound hok
  obtain ⟨spelled, hlexemes, hdecl⟩ := exists_lexemes_of_tokens hspelled
  rw [append_nil, append_nil] at htaken
  refine ⟨more.map value, [decl], forall_mem_map.mpr hmore, ?_⟩
  rw [← map_append, htaken, hlexemes]
  exact .one hdecl

/-- After a statement, what begins a file in the table it leaves begins one
together with it. -/
theorem begins_append {taken front : List (Located Lexeme)}
    (hspelled : ∃ tokens,
      symbols.tokens taken = tokens ++ [.mark .semicolon] ∧ DeclOf decl tokens)
    (h : Begins (symbols.after decl) (front.map value)) :
    Begins symbols ((taken ++ front).map value) := by
  obtain ⟨spelled, hlexemes, hdecl⟩ := exists_lexemes_of_tokens hspelled
  obtain ⟨more, decls, hmore, hfile⟩ := h
  refine ⟨more, decl :: decls, hmore, ?_⟩
  rw [map_append, hlexemes, append_assoc, append_assoc]
  exact .more hdecl hfile

/-- What a statement takes without an error begins a file, also if it takes
nothing. -/
theorem begins_of_viable {front}
    (h : front ≠ [] → Viable symbols statement (fun _ _ => True) front) :
    Begins symbols (front.map value) := by
  by_cases hempty : front = []
  · rw [hempty]
    exact leads_statement.viable.begins
  · exact (h hempty).begins

/-- Of a file that is not over after a statement, the error is that of the
rest. -/
theorem file_cons_eq_error {taken rest next after}
    (hfirst : (statement : Parse _) ⟨taken ++ next :: rest, symbols, last⟩ =
      .ok (decl, ⟨next :: rest, after, place last taken⟩)) :
    (file : Parse _) ⟨taken ++ next :: rest, symbols, last⟩ = .error error ↔
      (file : Parse _) ⟨next :: rest, after, place last taken⟩ = .error error := by
  have hrest : (untilEnd >>= fun again => if again then file >>= fun others =>
    pure (decl :: others)
      else pure [decl] : Parse _) ⟨next :: rest, after, place last taken⟩ =
      (file >>= fun others => pure (decl :: others) : Parse _)
        ⟨next :: rest, after, place last taken⟩ := rfl
  rw [file_eq, bind_eq_error, hfirst, ← file_eq]
  constructor
  · rintro (herror | ⟨_, _, heq, hothers⟩)
    · cases herror
    · cases heq
      rw [hrest, bind_eq_error] at hothers
      rcases hothers with hfile | ⟨_, _, _, hpure⟩
      · exact hfile
      · cases hpure
  · intro hfile
    refine .inr ⟨decl, _, rfl, ?_⟩
    rw [hrest]
    exact bind_eq_error.mpr (.inl hfile)

/-- What a statement that is read takes, and that it does not depend on the
lexemes after the next one. -/
theorem exists_taken_of_statement {stop}
    (h : (statement : Parse _) ⟨lexemes, symbols, last⟩ = .ok (decl, stop)) :
    ∃ taken, lexemes = taken ++ stop.rest ∧
      (∃ tokens, symbols.tokens taken = tokens ++ [.mark .semicolon] ∧ DeclOf decl tokens) ∧
      ∀ rest last', rest.head? = stop.rest.head? → (statement : Parse _) ⟨taken ++ rest,
        symbols, last'⟩ = .ok (decl, ⟨rest, symbols.after decl, place last' taken⟩) := by
  obtain ⟨-, taken, hsplit, -, hlocal⟩ := (leads_statement.prompt lexemes).ok h
  obtain ⟨taken', hsplit', hknown, hspelled⟩ := recognizes_statement.sound h
  obtain rfl : taken = taken' := append_cancel_right (hsplit.symm.trans hsplit')
  rw [hknown] at hlocal
  exact ⟨taken, hsplit, hspelled, hlocal⟩

/-- **A file is reported at its first wrong lexeme**, or at its end if it
can be completed. -/
theorem file_eq_error (h : (file : Parse _) ⟨lexemes, symbols, last⟩ = .error error) :
    (error = ⟨place last lexemes, .endOfInput⟩ ∧ Begins symbols (lexemes.map value)) ∨
      ∃ front lexeme back, lexemes = front ++ lexeme :: back ∧ error.span = lexeme.span ∧
        error.value ≠ .endOfInput ∧ Begins symbols (front.map value) ∧
        ∀ back' last', (file : Parse _) ⟨front ++ lexeme :: back', symbols,
          last'⟩ = .error error := by
  -- A statement leaves fewer lexemes, in a table of its own.
  induction hlength : lexemes.length using Nat.strongRecOn
    generalizing lexemes symbols last with
  | ind n ih =>
  subst hlength
  cases hfirst : (statement : Parse _) ⟨lexemes, symbols, last⟩ with
  | error first =>
    obtain rfl : first = error := by
      rw [file_eq, bind_eq_error, hfirst] at h
      rcases h with heq | ⟨_, _, hok, _⟩
      · cases heq
        rfl
      · cases hok
    rcases (leads_statement.prompt lexemes).error hfirst with
      ⟨rfl, hfront⟩ | ⟨front, lexeme, back, hsplit, hspan, hkind, hfront, hsame⟩
    · exact .inl ⟨rfl, begins_of_viable hfront⟩
    · refine .inr ⟨front, lexeme, back, hsplit, hspan, hkind, begins_of_viable hfront, ?_⟩
      intro back' last'
      rw [file_eq]
      exact bind_eq_error.mpr (.inl (hsame back' last'))
  | ok result =>
    obtain ⟨decl, stop⟩ := result
    have hshorter := repeatable_statements.shortens hfirst
    obtain ⟨taken, hsplit, hspelled, hlocal⟩ := exists_taken_of_statement hfirst
    generalize stop.rest = rest at hsplit hlocal hshorter
    subst hsplit
    cases rest with
    | nil =>
      -- The file is over, and has no error.
      rw [file_eq, bind_eq_error, hlocal [] last rfl] at h
      rcases h with heq | ⟨_, _, hok, hothers⟩
      · cases heq
      · cases hok
        cases hothers
    | cons next rest =>
      have hfile := (file_cons_eq_error (hlocal (next :: rest) last rfl)).mp h
      rcases ih _ hshorter hfile rfl with
        ⟨rfl, hbegins⟩ | ⟨front, lexeme, back, hrest, hspan, hkind, hbegins, hsame⟩
      · exact .inl ⟨by rw [place_append], begins_append hspelled hbegins⟩
      · refine .inr ⟨taken ++ front, lexeme, back, ?_, hspan, hkind,
          begins_append hspelled hbegins, ?_⟩
        · rw [hrest, append_assoc]
        · intro back' last'
          obtain ⟨first, tail, hcons⟩ : ∃ first tail,
            front ++ lexeme :: back' = first :: tail := by
            cases front <;> exact ⟨_, _, rfl⟩
          have hhead : (first :: tail).head? = (next :: rest).head? := by
            rw [← hcons, hrest, head?_append, head?_append]
            rfl
          rw [append_assoc, hcons,
            file_cons_eq_error (hlocal (first :: tail) last' hhead), ← hcons]
          exact hsame back' (place last' taken)

end Parser

namespace Decl

open Grammar

/-- Lexemes that spell no file end too early, or one of them is the first
wrong one, whatever follows it. -/
theorem ofLexemes_eq_error {symbols lexemes error}
    (h : ofLexemes symbols lexemes = .error error) :
    (error = ⟨place (.single .first) lexemes, .endOfInput⟩ ∧
        Begins symbols (lexemes.map value)) ∨
      ∃ front lexeme back, lexemes = front ++ lexeme :: back ∧ error.span = lexeme.span ∧
        error.value ≠ .endOfInput ∧ Begins symbols (front.map value) ∧
        ∀ back', ofLexemes symbols (front ++ lexeme :: back') = .error error := by
  have hfile : (file : Parse _) ⟨lexemes, symbols, .single .first⟩ = .error error := by
    rw [ofLexemes] at h
    cases hfile : (file : Parse _) ⟨lexemes, symbols, .single .first⟩ with
    | ok result =>
      rw [hfile] at h
      cases h
    | error found =>
      rw [hfile] at h
      cases h
      rfl
  rcases file_eq_error hfile with hend |
    ⟨front, lexeme, back, hsplit, hspan, hkind, hbegins, hsame⟩
  · exact .inl hend
  · refine .inr ⟨front, lexeme, back, hsplit, hspan, hkind, hbegins, fun back' => ?_⟩
    rw [ofLexemes, hsame]
    rfl

/-- No file begins with lexemes that fail whatever follows them. -/
theorem not_file_of_ofLexemes_eq_error {symbols lexemes error}
    (h : ∀ back, ofLexemes symbols (lexemes ++ back) = .error error) (more : List Lexeme)
    (decls : List Decl) : ¬ File symbols decls (lexemes.map value ++ more) := by
  intro hfile
  have hmore : (more.map (mk default)).map value = more := by
    rw [map_map]
    exact map_id more
  rw [← hmore, ← map_append] at hfile
  have hok : ofLexemes symbols (lexemes ++ more.map (mk default)) =
      .ok ⟨decls, decls.foldl Symbols.after symbols⟩ := ofLexemes_eq_ok.mpr ⟨hfile, rfl⟩
  rw [h] at hok
  cases hok

theorem parse_eq_error_of_errors_eq_nil {symbols source failure}
    (hlexical : Lexer.errors (Lexer.ofSource source).results = [])
    (h : parse symbols source = .error failure) :
    ∃ error, failure = .syntactic error ∧
      ofLexemes symbols (Lexer.lexemes (Lexer.ofSource source).results) = .error error := by
  rw [parse_of_errors_eq_nil hlexical] at h
  cases hlexemes : ofLexemes symbols (Lexer.lexemes (Lexer.ofSource source).results) with
  | ok parsed =>
    rw [hlexemes] at h
    cases h
  | error error =>
    rw [hlexemes] at h
    cases h
    exact ⟨error, rfl, rfl⟩

/-- **Syntax errors point at the first impossible token.**  A source without
lexical errors that has no declarations ends too early, or one of its
lexemes is wrong.  In the first case its lexemes begin a file, and the place
is that of the last.  In the second the place is that of a lexeme with which
no file goes on, and those before it begin one. -/
theorem parse_error_place (symbols : Symbols) (source : Source) (failure : ParseFailure)
    (hlexical : Lexer.errors (Lexer.ofSource source).results = [])
    (h : parse symbols source = .error failure) :
    ∃ error, failure = .syntactic error ∧
      (error.value = .endOfInput →
        Begins symbols ((Lexer.lexemes (Lexer.ofSource source).results).map Located.value) ∧
        error.span =
          ((Lexer.lexemes (Lexer.ofSource source).results).getLast?.map Located.span).getD
            (.single .first)) ∧
      (error.value ≠ .endOfInput →
        ∃ front lexeme back,
          Lexer.lexemes (Lexer.ofSource source).results = front ++ lexeme :: back ∧
          error.span = lexeme.span ∧ Begins symbols (front.map Located.value) ∧
          ∀ more decls,
            ¬ File symbols decls ((front ++ [lexeme]).map Located.value ++ more)) := by
  obtain ⟨error, rfl, herror⟩ := parse_eq_error_of_errors_eq_nil hlexical h
  refine ⟨error, rfl, ?_⟩
  rcases ofLexemes_eq_error herror with
    ⟨rfl, hbegins⟩ | ⟨front, lexeme, back, hsplit, hspan, hkind, hbegins, hsame⟩
  · exact ⟨fun _ => ⟨hbegins, rfl⟩, fun hkind => absurd rfl hkind⟩
  · refine ⟨fun hend => absurd hend hkind,
      fun _ => ⟨front, lexeme, back, hsplit, hspan, hbegins, ?_⟩⟩
    apply not_file_of_ofLexemes_eq_error
    intro back'
    rw [append_assoc]
    exact hsame back'

/-- A structure with a field that is a type and a bracket: the name that
became known is that of another field. -/
def unnamedField : Source :=
  .ofText "unnamed.x" "typedef int a; struct s \x7b a a; int[ \x7d;"

/-- The bracket is wrong, and what stands before it is not. -/
theorem parse_error_place_unnamedField :
    parse .initial unnamedField =
      .error (.syntactic ⟨⟨⟨1, 35⟩, ⟨1, 36⟩⟩, .expected .name (.mark .openSquare)⟩) ∧
    ∃ front lexeme back,
      Lexer.lexemes (Lexer.ofSource unnamedField).results = front ++ lexeme :: back ∧
      lexeme.span = ⟨⟨1, 35⟩, ⟨1, 36⟩⟩ ∧ Begins .initial (front.map Located.value) ∧
      ∀ more decls,
        ¬ File .initial decls ((front ++ [lexeme]).map Located.value ++ more) := by
  have hlexical : Lexer.errors (Lexer.ofSource unnamedField).results = [] := by decide +kernel
  have hfails : parse .initial unnamedField =
      .error (.syntactic ⟨⟨⟨1, 35⟩, ⟨1, 36⟩⟩, .expected .name (.mark .openSquare)⟩) := by
    have h : (match parse .initial unnamedField with
        | .error failure => some failure
        | .ok _ => none) =
          some (.syntactic ⟨⟨⟨1, 35⟩, ⟨1, 36⟩⟩, .expected .name (.mark .openSquare)⟩) := by
      decide +kernel
    generalize parse .initial unnamedField = result at h
    cases result with
    | error failure => exact congrArg Except.error (Option.some.inj h)
    | ok parsed => cases h
  obtain ⟨error, heq, -, hplace⟩ := parse_error_place _ _ _ hlexical hfails
  cases heq
  obtain ⟨front, lexeme, back, hsplit, hspan, hbegins, hnone⟩ := hplace nofun
  exact ⟨hfails, front, lexeme, back, hsplit, hspan.symm, hbegins, hnone⟩

end Decl
end Xdr
