import Xdr.Proofs.Decl.Parts

/-!
# Acceptance

The parser accepts exactly the grammar.

## Main Statements

* `Parser.recognizes_decl` — a declaration is recognized by its rule
* `Parser.Runs.file`, `Parser.runs_of_file` — the runs of the parser are the
  files of the grammar
* `Decl.parse_eq_ok_iff_file` — a whole source

## Design Notes

A declaration makes its name known, so the table that classifies names
changes from one statement to the next. Within a statement it does not: the
name becomes known last.
-/

namespace Xdr

open List Located Symbols Xdr.Parser

namespace Parser

open Grammar

variable {α : Type} {symbols : Symbols}

/-! ### Declarations

Each of them makes its own name known, except for a program. -/

theorem recognizes_constDecl :
    Recognizes symbols constDecl (fun decl => symbols.after (.const decl))
    fun decl taken _ => DeclOf (.const decl) (.keyword .const :: taken) := by
  refine (recognizes_newName fun _ name hname => (reads_intExpr.bind fun value =>
    @recognizes_registerConstant _ symbols ⟨_, name⟩ hname value ⟨name, value⟩
      (fun decl => symbols.after (.const decl)) rfl).expect (.mark .assign)).congr
        fun decl taken rest => ?_
  constructor
  · rintro ⟨name, _, rfl, _, rfl, value, _, _, rfl, ⟨number, rfl, hvalue⟩, rfl, rfl⟩
    exact .const (.identifier name) hvalue
  · rintro ⟨⟨⟩, hvalue⟩
    exact ⟨_, _, rfl, _, rfl, _, _, _, rfl, ⟨_, rfl, hvalue⟩, rfl, rfl⟩

theorem recognizes_enumDecl :
    Recognizes symbols enumDecl (fun decl => symbols.after (.enum decl))
    fun decl taken _ => DeclOf (.enum decl) (.keyword .enum :: taken) := by
  refine (recognizes_newName fun _ name hname => (reads_enumMembers.bind fun members =>
    @recognizes_register _ symbols ⟨_, name⟩ hname ⟨name, members⟩
      (fun decl => symbols.after (.enum decl)) rfl).expect (.mark .openCurly)).congr
        fun decl taken rest => ?_
  constructor
  · rintro ⟨name, _, rfl, _, rfl, members, _, _, rfl, ⟨body, rfl, hmembers⟩, rfl, rfl⟩
    rw [append_nil]
    exact .enum (.identifier name) hmembers
  · rintro (_ | ⟨⟨⟩, hmembers⟩)
    exact ⟨_, _, rfl, _, rfl, _, _, [], by simp, ⟨_, rfl, hmembers⟩, rfl, rfl⟩

theorem recognizes_structDecl :
    Recognizes symbols structDecl (fun decl => symbols.after (.struct decl))
    fun decl taken _ => DeclOf (.struct decl) (.keyword .struct :: taken) := by
  refine (recognizes_newName fun _ name hname => (reads_structFields.bind fun fields =>
    @recognizes_register _ symbols ⟨_, name⟩ hname ⟨name, fields⟩
      (fun decl => symbols.after (.struct decl)) rfl).expect (.mark .openCurly)).congr
    fun decl taken rest => ?_
  constructor
  · rintro ⟨name, _, rfl, _, rfl, fields, _, _, rfl, ⟨body, rfl, hfields⟩, rfl, rfl⟩
    rw [append_nil]
    exact .struct (.identifier name) (.mk hfields)
  · rintro (_ | _ | ⟨⟨⟩, ⟨hfields⟩⟩)
    exact ⟨_, _, rfl, _, rfl, _, _, [], by simp, ⟨_, rfl, hfields⟩, rfl, rfl⟩

theorem recognizes_unionDecl :
    Recognizes symbols unionDecl (fun decl => symbols.after (.union decl))
    fun decl taken _ => DeclOf (.union decl) (.keyword .union :: taken) := by
  refine (recognizes_newName fun _ name hname => ((reads_typeRef.bind fun type =>
    reads_localName.bind fun tag => ((reads_unionCases.bind fun cases =>
      @recognizes_register _ symbols ⟨_, name⟩ hname ⟨name, ⟨type, tag⟩, cases⟩
        (fun decl => symbols.after (.union decl)) rfl).expect (.mark .openCurly)).expect
        (.mark .closeParen)).expect (.mark .openParen)).expect (.keyword .switch)).congr
    fun decl taken rest => ?_
  constructor
  · rintro ⟨name, _, rfl, _, rfl, _, rfl, type, front, _, rfl, ⟨htype, _⟩, tag, _, _, rfl,
      ⟨token, rfl, htag⟩, _, rfl, _, rfl, cases, _, _, rfl, ⟨body, rfl, hcases⟩, rfl, rfl⟩
    rw [append_nil]
    exact .union (.identifier name) htype htag (.mk hcases)
  · rintro (_ | _ | _ | _ | ⟨⟨⟩, htype, htag, ⟨hcases⟩⟩)
    exact ⟨_, _, rfl, _, rfl, _, rfl, _, _, _, rfl, ⟨htype, fun _ => htag.noWidth _⟩,
      _, _, _, rfl, ⟨_, rfl, htag⟩, _, rfl, _, rfl, _, _, [], by simp,
      ⟨_, rfl, hcases⟩, rfl, rfl⟩

theorem reads_programDecl : Reads symbols programDecl fun decl taken _ =>
    DeclOf (.program decl) (.keyword .program :: taken) := by
  refine (reads_localName.bind fun name => (reads_versionDecls.bind fun versions =>
    (reads_intExpr.map fun number =>
      ProgramDecl.mk name number versions).expect (.mark .assign)).expect
      (.mark .openCurly)).congr fun decl taken rest => ?_
  constructor
  · rintro ⟨name, _, _, rfl, ⟨token, rfl, hname⟩, _, rfl, versions, _, _, rfl,
      ⟨body, rfl, hversions⟩, _, rfl, number, rfl, value, rfl, hnumber⟩
    exact .program hname (.mk hversions) hnumber
  · rintro (_ | _ | _ | _ | _ | ⟨hname, ⟨hversions⟩, hnumber⟩)
    exact ⟨_, _, _, rfl, ⟨_, rfl, hname⟩, _, rfl, _, _, _, rfl, ⟨_, rfl, hversions⟩, _, rfl,
      _, rfl, _, rfl, hnumber⟩

/-- The end of a type definition without a pointer: it looks ahead if there
is no suffix. -/
theorem recognizes_typedefEnd (span : Span) {name} (hname : symbols.classOf? name = none)
    (type : TypeRef) (form : Form) :
    Recognizes symbols
      (if form = .plain then ahead (.mark .semicolon) >>= fun _ =>
        register ⟨span, name⟩ >>= fun _ =>
          pure (Field.mk name type form)
        else register ⟨span, name⟩ >>= fun _ => pure (Field.mk name type form))
      (fun field => symbols.after (.typeDef field)) fun field taken rest =>
        field = ⟨name, type, form⟩ ∧ taken = [] ∧
          (form = .plain → ∀ next ∈ rest.head?, next = .mark .semicolon) := by
  have hregister :=
    @recognizes_register _ symbols ⟨span, name⟩ hname (Field.mk name type form)
    (fun field => symbols.after (.typeDef field)) rfl
  split
  · next hform =>
    refine ((reads_ahead (.mark .semicolon)).bind fun _ =>
      hregister).congr fun field taken rest => ?_
    constructor
    · rintro ⟨_, _, _, rfl, ⟨rfl, hahead⟩, rfl, rfl⟩
      exact ⟨rfl, rfl, fun _ => hahead⟩
    · rintro ⟨rfl, rfl, hahead⟩
      exact ⟨(), [], [], rfl, ⟨rfl, hahead hform⟩, rfl, rfl⟩
  · next hform => exact hregister.congr fun field taken rest => by simp [hform]

theorem recognizes_typedefDecl :
    Recognizes symbols typedefDecl (fun field => symbols.after (.typeDef field))
    fun field taken rest => FieldOf NewName field taken ∧
      (field.form = .plain → ∀ next ∈ rest.head?, next = .mark .semicolon) := by
  refine (reads_typeRef.bind fun type => recognizes_eat_ite
    (recognizes_newName fun _ name hname => @recognizes_register _ symbols ⟨_, name⟩ hname
      (Field.mk name type .pointer) (fun field => symbols.after (.typeDef field)) rfl)
    (recognizes_newName fun span name hname => reads_suffix.bind fun form =>
      recognizes_typedefEnd span hname type form)).congr fun field taken rest => ?_
  constructor
  · rintro ⟨type, front, _, rfl, ⟨htype, _⟩, ⟨_, rfl, name, _, rfl, rfl, rfl⟩ |
      ⟨_, name, _, rfl, form, back, _, rfl, ⟨hform, _⟩, rfl, rfl, hahead⟩⟩
    · exact ⟨.mk htype (.pointer (.identifier name)), nofun⟩
    · rw [append_nil]
      exact ⟨.mk htype (.held (.identifier name) hform), hahead⟩
  · rintro ⟨⟨htype, ⟨⟨⟩⟩ | ⟨⟨⟩, hform⟩⟩, hahead⟩
    · exact ⟨_, _, _, rfl, ⟨htype, fun _ => noWidth_of_mark _ _⟩,
        .inl ⟨_, rfl, _, _, rfl, rfl, rfl⟩⟩
    · refine ⟨_, _, _, rfl, ⟨htype, fun _ => ?_⟩,
        .inr ⟨by simp, _, _, rfl, _, _, [], by simp, ⟨hform, ?_⟩, rfl, rfl, hahead⟩⟩
      · simp [NoWidth]
      · intro hplain next hnext
        rw [hahead hplain next hnext]
        simp

/-- What a declaration needs of the tokens left: a type definition without a
suffix is followed by its semicolon, if by anything. -/
def DeclEnds (decl : Decl) (rest : List Token) : Prop :=
  ∀ field, decl = .typeDef field → field.form = .plain → ∀ next ∈ rest.head?,
    next = .mark .semicolon

/-- The declarations that one keyword starts, other than type definitions. -/
theorem recognizes_declOf {step : Parse α} {make : α → Decl} {keyword : Keyword}
    (h : Recognizes symbols step (fun value =>
      symbols.after (make value)) fun value taken _ =>
      DeclOf (make value) (.keyword keyword :: taken))
    (hmake : ∀ decl, keywordOf decl = keyword → ∃ value, decl = make value)
    (hkeyword : keyword ≠ .typeDef) :
    Recognizes symbols (step >>= fun value =>
      pure (make value)) symbols.after fun decl taken rest =>
      DeclOf decl (.keyword keyword :: taken) ∧ DeclEnds decl rest := by
  have hkeywordOf : ∀ {decl taken}, DeclOf decl (.keyword keyword :: taken) →
    keywordOf decl = keyword := by
    intro decl taken hdecl
    obtain ⟨back, heq⟩ := hdecl.eq_cons
    cases heq
    rfl
  refine (h.mapTo make fun _ => rfl).congr fun decl taken rest => ?_
  constructor
  · rintro ⟨value, rfl, hdecl⟩
    refine ⟨hdecl, fun field heq => absurd ?_ hkeyword⟩
    rw [← hkeywordOf hdecl, heq]
    rfl
  · rintro ⟨hdecl, _⟩
    obtain ⟨value, rfl⟩ := hmake decl (hkeywordOf hdecl)
    exact ⟨value, rfl, hdecl⟩

/-- A token that starts no declaration. -/
theorem recognizes_decl_fail {token} (htoken : ∀ decl, token ≠ .keyword (keywordOf decl))
    (error : SyntaxError) :
    Recognizes symbols (fail error) symbols.after fun decl taken rest =>
      DeclOf decl (token :: taken) ∧ DeclEnds decl rest := by
  refine (recognizes_fail error _).congr fun decl taken _ =>
    ⟨False.elim, fun ⟨hdecl, _⟩ => ?_⟩
  obtain ⟨back, heq⟩ := hdecl.eq_cons
  cases heq
  exact htoken decl rfl

/-- **A declaration** is recognized by its rule. -/
theorem recognizes_decl : Recognizes symbols decl symbols.after fun decl taken rest =>
    DeclOf decl taken ∧ DeclEnds decl rest := by
  refine (@recognizes_next _ symbols _ _
    (fun token decl taken rest => DeclOf decl (token :: taken) ∧ DeclEnds decl rest)
    fun span token _ => ?_).congr fun decl taken rest => ?_
  · cases token with
    | identifier _ | typeName _ | constant _ | literal _ | mark _ =>
      exact recognizes_decl_fail (fun _ => Token.noConfusion) _
    | keyword keyword =>
      cases keyword with
      | const =>
        refine recognizes_declOf recognizes_constDecl ?_ nofun
        rintro ⟨⟩ ⟨⟩
        exact ⟨_, rfl⟩
      | enum =>
        refine recognizes_declOf recognizes_enumDecl ?_ nofun
        rintro ⟨⟩ ⟨⟩
        exact ⟨_, rfl⟩
      | struct =>
        refine recognizes_declOf recognizes_structDecl ?_ nofun
        rintro ⟨⟩ ⟨⟩
        exact ⟨_, rfl⟩
      | union =>
        refine recognizes_declOf recognizes_unionDecl ?_ nofun
        rintro ⟨⟩ ⟨⟩
        exact ⟨_, rfl⟩
      | program =>
        refine recognizes_declOf reads_programDecl ?_ nofun
        rintro ⟨⟩ ⟨⟩
        exact ⟨_, rfl⟩
      | typeDef =>
        refine (recognizes_typedefDecl.mapTo Decl.typeDef fun _ =>
          rfl).congr fun decl taken rest => ?_
        constructor
        · rintro ⟨field, rfl, hfield, hahead⟩
          refine ⟨.typeDef hfield, fun other heq => ?_⟩
          cases heq
          exact hahead
        · rintro ⟨hdecl, hahead⟩
          cases hdecl with
          | typeDef hfield => exact ⟨_, rfl, hfield, hahead _ rfl⟩
      | _ =>
        refine recognizes_decl_fail (fun decl h => ?_) _
        cases decl <;> cases h
  · constructor
    · rintro ⟨token, back, rfl, hdecl⟩
      exact hdecl
    · rintro ⟨hdecl, hahead⟩
      obtain ⟨back, rfl⟩ := hdecl.eq_cons
      exact ⟨_, back, rfl, hdecl, hahead⟩

/-! ### Files

The names known change from one statement to the next, so the tokens of a
file are not those of one table. -/

theorem tokens_eq_mark {lexemes : List (Located Lexeme)} {mark : Mark} :
    symbols.tokens lexemes = [.mark mark] ↔ ∃ span, lexemes = [⟨span, .mark mark⟩] := by
  constructor
  · intro h
    obtain ⟨⟨span, lexeme⟩, rest, rfl, hlexeme, hrest⟩ := tokens_eq_cons.mp h
    obtain rfl : lexeme = .mark mark := classify_eq_mark.mp hlexeme
    rw [tokens_eq_nil.mp hrest]
    exact ⟨span, rfl⟩
  · rintro ⟨span, rfl⟩
    rfl

theorem recognizes_statement : Recognizes symbols statement symbols.after fun decl taken _ =>
    ∃ front, taken = front ++ [.mark .semicolon] ∧ DeclOf decl front where
  sound := by
    intro lexemes last decl cursor hok
    obtain ⟨_, ⟨middle, known, place⟩, hdecl, hok⟩ := bind_eq_ok.mp hok
    obtain ⟨_, cursor', hsemicolon, hok⟩ := bind_eq_ok.mp hok
    cases hok
    obtain ⟨front, rfl, rfl, hspelled, _⟩ := recognizes_decl.sound hdecl
    -- The semicolon is read with the new name known, which does not matter to a mark.
    obtain ⟨back, hback, hknown, hmark⟩ := (reads_expect _).sound hsemicolon
    obtain rfl : middle = back ++ cursor.rest := hback
    obtain ⟨span, rfl⟩ := tokens_eq_mark.mp hmark
    exact ⟨front ++ [⟨span, .mark .semicolon⟩], by simp, hknown, _,
      tokens_append .., hspelled⟩
  complete := by
    rintro taken rest last decl ⟨front, htaken, hspelled⟩
    obtain ⟨taken, stop, rfl, rfl, hstop⟩ := tokens_eq_append.mp htaken
    obtain ⟨span, rfl⟩ := tokens_eq_mark.mp hstop
    have hends : DeclEnds decl (symbols.tokens (⟨span, .mark .semicolon⟩ :: rest)) := by
      intro field _ _ next hnext
      exact (Option.mem_some.mp hnext).symm
    obtain ⟨place, hdecl⟩ :=
      @Recognizes.complete _ _ _ _ _ recognizes_decl taken _ last decl ⟨hspelled, hends⟩
    obtain ⟨last', hsemicolon⟩ := @Recognizes.complete _ (symbols.after decl) _ _ _
      (reads_expect (.mark .semicolon)) [⟨span, .mark .semicolon⟩] rest place () rfl
    refine ⟨last', ?_⟩
    rw [append_assoc]
    exact bind_eq_ok.mpr ⟨decl, _, hdecl, bind_eq_ok.mpr ⟨(), _, hsemicolon, rfl⟩⟩

theorem reads_untilEnd : Reads symbols untilEnd fun found taken rest =>
    found = rest.head?.isSome ∧ taken = [] := by
  refine (reads_peek.map fun peeked => peeked.isSome).congr fun found taken rest => ?_
  constructor
  · rintro ⟨peeked, rfl, rfl, rfl⟩
    exact ⟨rfl, rfl⟩
  · rintro ⟨rfl, rfl⟩
    exact ⟨_, rfl, rfl, rfl⟩

theorem repeatable_statements : Repeatable statement untilEnd where
  shortens start decl stop hok := by
    obtain ⟨taken, htaken, _, front, hfront, _⟩ := recognizes_statement.sound hok
    change start.rest = taken ++ stop.rest at htaken
    have hlen : taken.length = front.length + 1 := by
      simpa [tokens] using congrArg length hfront
    rw [htaken, length_append]
    omega
  starves _ _ := rfl
  keeps start again stop hok := by
    cases hok
    exact Nat.le_refl _

/-- The successful runs of the parser. -/
theorem file_eq_ok {start stop decls} :
    file start = .ok (decls, stop) ↔ Runs statement untilEnd start decls stop :=
  repeatable_statements.oneOrMore_eq_ok

/-- The lexemes of a statement end in a semicolon, and those before it spell
a declaration. -/
theorem exists_lexemes_of_tokens {taken decl}
    (h : ∃ front, symbols.tokens taken = front ++ [.mark .semicolon] ∧ DeclOf decl front) :
    ∃ lexemes, taken.map value = lexemes ++ [.mark .semicolon] ∧
      DeclOf decl (lexemes.map symbols.classify) := by
  obtain ⟨_, htaken, hdecl⟩ := h
  obtain ⟨front, stop, rfl, rfl, hstop⟩ := tokens_eq_append.mp htaken
  obtain ⟨span, rfl⟩ := tokens_eq_mark.mp hstop
  refine ⟨front.map value, by simp, ?_⟩
  rw [map_map]
  exact hdecl

/-- A successful run reads everything. -/
theorem Runs.rest_eq_nil {start stop decls} (h : Runs statement untilEnd start decls stop) :
    stop.rest = [] := by
  induction h with
  | last _ hstop =>
    obtain ⟨_, _, _, hend, _⟩ := reads_untilEnd.sound hstop
    simpa [head?_tokens] using hend.symm
  | again _ _ _ ih => exact ih

/-- What a successful run reads is a file. -/
theorem Runs.file {start stop decls} (h : Runs statement untilEnd start decls stop) :
    File start.symbols decls (start.rest.map value) ∧
      stop.symbols = decls.foldl after start.symbols := by
  induction h with
  | @last start middle stop decl hstatement hstop =>
    obtain ⟨taken, htaken, hknown, hspelled⟩ := recognizes_statement.sound hstatement
    obtain ⟨_, hrest, hknown', _, hnone⟩ := reads_untilEnd.sound hstop
    obtain ⟨lexemes, hlexemes, hdecl⟩ := exists_lexemes_of_tokens hspelled
    rw [tokens_eq_nil.mp hnone, (Runs.last hstatement hstop).rest_eq_nil] at hrest
    change start.rest = taken ++ middle.rest at htaken
    rw [htaken, hrest, nil_append, append_nil, hlexemes]
    exact ⟨.one hdecl, hknown'.trans hknown⟩
  | @again start middle middle' stop decl decls hstatement hagain _ ih =>
    obtain ⟨taken, htaken, hknown, hspelled⟩ := recognizes_statement.sound hstatement
    obtain ⟨_, hrest, hknown', _, hnone⟩ := reads_untilEnd.sound hagain
    obtain ⟨lexemes, hlexemes, hdecl⟩ := exists_lexemes_of_tokens hspelled
    -- The rest is a file in the table that the first statement leaves.
    obtain ⟨hfile, hstop⟩ := ih
    rw [hknown'.trans hknown] at hfile hstop
    rw [tokens_eq_nil.mp hnone, nil_append] at hrest
    change start.rest = taken ++ middle.rest at htaken
    rw [htaken, hrest, map_append, hlexemes, append_assoc]
    exact ⟨.more hdecl hfile, hstop⟩

theorem exists_statement {decl} {front : List (Located Lexeme)}
    (hdecl : DeclOf decl ((front.map value).map symbols.classify)) (span : Span)
    (rest : List (Located Lexeme)) (last : Span) :
    ∃ last', (statement : Parse Decl) ⟨front ++ ⟨span, .mark .semicolon⟩ :: rest, symbols,
      last⟩ = .ok (decl, ⟨rest, symbols.after decl, last'⟩) := by
  rw [map_map] at hdecl
  have h := @Recognizes.complete _ symbols _ _ _ recognizes_statement
    (front ++ [⟨span, .mark .semicolon⟩]) rest last decl ⟨_, tokens_append .., hdecl⟩
  rwa [append_assoc] at h

/-- Every file is read by a successful run. -/
theorem runs_of_file {decls spelled} (h : File symbols decls spelled)
    {lexemes : List (Located Lexeme)} (hlexemes : lexemes.map value = spelled)
    (last : Span) :
    ∃ last', Runs statement untilEnd ⟨lexemes, symbols, last⟩ decls
      ⟨[], decls.foldl after symbols, last'⟩ := by
  induction h generalizing lexemes last with
  | one hdecl =>
    obtain ⟨front, stop, rfl, rfl, hstop⟩ := map_eq_append_iff.mp hlexemes
    obtain ⟨⟨span, _⟩, _, rfl, rfl, hrest⟩ := map_eq_cons_iff.mp hstop
    rw [map_eq_nil_iff.mp hrest]
    obtain ⟨last', hstatement⟩ := exists_statement hdecl span [] last
    exact ⟨last', .last hstatement rfl⟩
  | more hdecl hfile ih =>
    obtain ⟨front, stop, rfl, rfl, hstop⟩ := map_eq_append_iff.mp hlexemes
    obtain ⟨⟨span, _⟩, rest, rfl, rfl, hrest⟩ := map_eq_cons_iff.mp hstop
    obtain ⟨place, hstatement⟩ := exists_statement hdecl span rest last
    obtain ⟨last', hruns⟩ := ih hrest place
    cases rest with
    | nil => exact absurd hrest.symm hfile.ne_nil
    | cons lexeme rest => exact ⟨last', .again hstatement rfl hruns⟩

end Parser

namespace Decl

open Grammar

theorem ofLexemes_eq_ok {symbols lexemes parsed} :
    ofLexemes symbols lexemes = .ok parsed ↔
      File symbols parsed.decls (lexemes.map value) ∧
        parsed.symbols = parsed.decls.foldl after symbols := by
  rw [ofLexemes]
  constructor
  · intro h
    cases hfile : file (Cursor.mk lexemes symbols (.single .first)) with
    | error error =>
      rw [hfile] at h
      cases h
    | ok result =>
      rw [hfile] at h
      cases h
      exact (file_eq_ok.mp hfile).file
  · rintro ⟨hfile, hsymbols⟩
    obtain ⟨last, h⟩ := runs_of_file hfile rfl (.single .first)
    rw [file_eq_ok.mpr h, Except.map, ← hsymbols]

end Decl
end Xdr
