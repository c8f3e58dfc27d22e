import Mathlib.Data.List.Nodup
import Mathlib.Data.List.Pairwise
import Xdr.Proofs.Decl.Grammar
import Xdr.Proofs.Decl.Recognition
import Xdr.Proofs.Table

/-!
# Declared names

A declaration needs a name that is not known, and makes it known.  So no
name is declared twice in a file, and none that was known before it.  A
declaration of a constant in front of a file can be taken off: the rest is a
file that is read with the constant known, and nothing in it bears the name,
not even a program.

## Main Statements

* `Grammar.File.nodup_knownNames` — the declared names are distinct, and
  were not known before
* `Grammar.File.eq_of_knownName?_eq` — a declaration is known by its name
* `Grammar.file_const_iff` — a constant in front of a file
* `Grammar.File.name_ne_of_constant` — nothing bears the name of a constant
  that was known before
-/

namespace Xdr

open Decl List Symbols

/-- The name that a declaration makes known. -/
def Decl.knownName? : Decl → Option String
  | .program _ => none
  | decl => some decl.name

namespace Symbols

/-- Nothing is forgotten, and only the declared name is learnt. -/
theorem classOf?_after_eq_none {symbols : Symbols} {decl name} :
    (symbols.after decl).classOf? name = none ↔
      symbols.classOf? name = none ∧ decl.knownName? ≠ some name := by
  cases decl with
  | program decl => simp [after, Decl.knownName?]
  | const decl | enum decl | struct decl | union decl | typeDef decl =>
    simp only [after, classOf?, Table.find?_insert, Decl.knownName?, Decl.name]
    split
    · next hname => simp [hname]
    · next hname => simp [Ne.symm hname]

/-- A truth value is known whatever is defined from outside. -/
theorem classOf?_ofDefines_ne_none {name} (h : initial.classOf? name ≠ none)
    (defines : List Define) : (ofDefines defines).classOf? name ≠ none := by
  have hadd : ∀ (symbols : Symbols) (define : Define), symbols.classOf? name ≠ none →
      (symbols.addDefine define).classOf? name ≠ none := by
    intro symbols define hknown
    rw [classOf?, addDefine]
    cases define.value with
    | text _ => exact hknown
    | int _ =>
      rw [Table.find?_insert]
      split
      · exact Option.some_ne_none _
      · exact hknown
  rw [ofDefines]
  generalize initial = symbols at h
  induction defines generalizing symbols with
  | nil => exact h
  | cons define defines ih => exact ih _ (hadd symbols define h)

end Symbols

namespace Grammar

variable {symbols : Symbols} {decl : Decl} {name : String} {lexemes : List Lexeme}

theorem DeclOf.identifier_mem {tokens} (h : DeclOf decl tokens)
    (hname : decl.knownName? = some name) : .identifier name ∈ tokens := by
  cases h with
  | const hnew _ | enum hnew _ | struct hnew _ | union hnew _ _ _ =>
    cases hname
    cases hnew
    simp [name]
  | typeDef hfield =>
    cases hname
    obtain ⟨_, ⟨⟨⟩⟩ | ⟨⟨⟩, _⟩⟩ := hfield <;> simp [name]
  | program _ _ _ => cases hname

/-- The name of a declaration is not known where it stands. -/
theorem DeclOf.classOf?_eq_none (h : DeclOf decl (lexemes.map symbols.classify))
    (hname : decl.knownName? = some name) : symbols.classOf? name = none := by
  obtain ⟨lexeme, _, hlexeme⟩ := mem_map.mp (h.identifier_mem hname)
  exact classify_eq_identifier hlexeme

/-- **No name is declared twice**, nor one that was known before the file. -/
theorem File.nodup_knownNames {decls : List Decl} (h : File symbols decls lexemes) :
    (decls.filterMap knownName?).Nodup ∧
      ∀ name ∈ decls.filterMap knownName?, symbols.classOf? name = none := by
  induction h with
  | @one symbols decl lexemes hdecl =>
    cases hname : decl.knownName? with
    | none => simp [hname]
    | some name => simpa [hname] using hdecl.classOf?_eq_none hname
  | @more symbols decl decls lexemes rest hdecl _ ih =>
    obtain ⟨hnodup, hnone⟩ := ih
    have hlater : ∀ name ∈ decls.filterMap knownName?,
        symbols.classOf? name = none ∧ decl.knownName? ≠ some name :=
      fun name hmem => classOf?_after_eq_none.mp (hnone name hmem)
    cases hname : decl.knownName? with
    | none =>
      rw [filterMap_cons_none hname]
      exact ⟨hnodup, fun name hmem => (hlater name hmem).1⟩
    | some name =>
      rw [filterMap_cons_some hname]
      refine ⟨nodup_cons.mpr ⟨fun hmem => (hlater name hmem).2 hname, hnodup⟩, ?_⟩
      rw [forall_mem_cons]
      exact ⟨hdecl.classOf?_eq_none hname, fun other hmem => (hlater other hmem).1⟩

/-- A declaration is known by its name. -/
theorem File.eq_of_knownName?_eq {decls} (h : File symbols decls lexemes) {other}
    (hdecl : decl ∈ decls) (hother : other ∈ decls) (hname : decl.knownName? = some name)
    (hname' : other.knownName? = some name) : decl = other := by
  have hsymm : Std.Symm fun (first second : Decl) => ∀ x, first.knownName? = some x →
      ∀ y, second.knownName? = some y → x ≠ y :=
    ⟨fun _ _ hne x hx y hy heq => hne y hy x hx heq.symm⟩
  by_contra hne
  have hpairwise := pairwise_filterMap.mp h.nodup_knownNames.1
  exact hpairwise.forall hdecl hother hne name hname name hname' rfl

end Grammar

/-! ### Constants at the beginning of a file -/

namespace Symbols

variable {symbols : Symbols}

theorem classOf?_after_of_ne {decl : Decl} {name} (h : decl.name ≠ name) :
    (symbols.after decl).classOf? name = symbols.classOf? name := by
  cases decl with
  | program decl => rfl
  | const decl | enum decl | struct decl | union decl | typeDef decl =>
    simp only [Decl.name] at h
    simp only [after, classOf?, Table.find?_insert, Decl.name, if_neg (Ne.symm h)]

theorem word_of_classify_eq_identifier {word name}
    (h : symbols.classify (.word word) = .identifier name) :
    word = name ∧ symbols.classOf? word = none := by
  rw [classify] at h
  split at h <;> cases h
  next hnone => exact ⟨rfl, hnone⟩

theorem classify_ne_typeName {lexeme name} (h : symbols.classOf? name = some .constant) :
    symbols.classify lexeme ≠ .typeName name := by
  intro hlexeme
  cases lexeme with
  | word other =>
    rw [classify] at hlexeme
    split at hlexeme <;> cases hlexeme
    next hother => cases h.symm.trans hother
  | literal | keyword | mark => cases hlexeme

end Symbols

namespace Grammar

variable {symbols : Symbols} {decls : List Decl} {decl : Decl} {lexemes rest : List Lexeme}

/-! ### Names -/

theorem DeclOf.name_mem {tokens} (h : DeclOf decl tokens) :
    .identifier decl.name ∈ tokens ∨ .typeName decl.name ∈ tokens := by
  cases hname : decl.knownName? with
  | some name =>
    have hsame : name = decl.name := by cases decl <;> cases hname <;> rfl
    exact .inl (hsame ▸ h.identifier_mem hname)
  | none =>
    cases h <;> cases hname
    next hlocal _ _ => cases hlocal <;> simp [name]

/-- The name of a declaration is no constant where it stands. -/
theorem DeclOf.name_ne_of_constant (h : DeclOf decl (lexemes.map symbols.classify)) {name}
    (hconstant : symbols.classOf? name = some .constant) : decl.name ≠ name := by
  rintro rfl
  rcases h.name_mem with hmem | hmem
  · obtain ⟨lexeme, -, hlexeme⟩ := mem_map.mp hmem
    cases (classify_eq_identifier hlexeme).symm.trans hconstant
  · obtain ⟨lexeme, -, hlexeme⟩ := mem_map.mp hmem
    exact classify_ne_typeName hconstant hlexeme

/-- **Nothing bears the name of a constant** that was known before the file.
-/
theorem File.name_ne_of_constant (h : File symbols decls lexemes) {name : String}
    (hconstant : symbols.classOf? name = some .constant) :
    ∀ decl ∈ decls, decl.name ≠ name := by
  induction h with
  | one hdecl => simpa using hdecl.name_ne_of_constant hconstant
  | more hdecl _ ih =>
    have hne := hdecl.name_ne_of_constant hconstant
    rw [forall_mem_cons]
    exact ⟨hne, ih ((classOf?_after_of_ne hne).trans hconstant)⟩

/-! ### A constant in front -/

/-- The lexemes of a constant with a literal, without the semicolon. -/
def constLexemes (name digits : String) : List Lexeme :=
  [.keyword .const, .word name, .mark .assign, .literal digits]

variable {name digits : String}

theorem declOf_constLexemes (hnew : symbols.classOf? name = none) :
    DeclOf (.const ⟨name, .literal digits⟩)
      ((constLexemes name digits).map symbols.classify) := by
  have hidentifier : symbols.classify (.word name) = .identifier name := by
    rw [classify, hnew]
  simp only [constLexemes, map_cons, map_nil, hidentifier]
  exact .const (.identifier name) (.literal digits)

/-- The first declaration of a file that begins with the lexemes of a
constant is that constant. -/
theorem DeclOf.eq_const {more} (h : DeclOf decl (lexemes.map symbols.classify))
    (heq : lexemes ++ more = constLexemes name digits ++ rest) :
    symbols.classOf? name = none ∧ decl = .const ⟨name, .literal digits⟩ ∧ more = rest := by
  obtain ⟨back, hback⟩ := h.eq_cons
  obtain ⟨first, others, rfl, hfirst, -⟩ := map_eq_cons_iff.mp hback
  obtain ⟨rfl, hothers⟩ := cons.inj heq
  generalize htokens : (Lexeme.keyword .const :: others).map symbols.classify = tokens at h
  cases h with
  | enum | struct | union | typeDef | program => cases hfirst
  | @const other value token number hname hvalue =>
    obtain ⟨word, assign, literal, rfl⟩ : ∃ word assign literal,
      others = [word, assign, literal] := by
      apply length_eq_three.mp
      simpa using congrArg length htokens
    obtain ⟨rfl, rfl, rfl, rfl⟩ : word = .word name ∧ assign = .mark .assign ∧
      literal = .literal digits ∧
        more = rest := by simpa using hothers
    simp only [map_cons, map_nil, cons.injEq] at htokens
    obtain ⟨-, htoken, -, rfl, -⟩ := htokens
    cases hvalue
    cases hname
    obtain ⟨rfl, hnew⟩ := word_of_classify_eq_identifier htoken
    exact ⟨hnew, rfl, rfl⟩

/-- **A constant in front of a file** can be taken off, if something follows
it. -/
theorem file_const_iff (hrest : rest ≠ []) :
    File symbols decls (constLexemes name digits ++ .mark .semicolon :: rest) ↔
      symbols.classOf? name = none ∧ ∃ others,
        decls = .const ⟨name, .literal digits⟩ :: others ∧
        File (symbols.after (.const ⟨name, .literal digits⟩)) others rest := by
  constructor
  · intro h
    generalize heq : constLexemes name digits ++ .mark .semicolon :: rest = lexemes at h
    cases h with
    | one hdecl =>
      obtain ⟨-, -, hsame⟩ := hdecl.eq_const heq.symm
      cases hsame
      exact absurd rfl hrest
    | more hdecl hothers =>
      obtain ⟨hnew, rfl, hsame⟩ := hdecl.eq_const heq.symm
      cases hsame
      exact ⟨hnew, _, rfl, hothers⟩
  · rintro ⟨hnew, others, rfl, hothers⟩
    exact .more (declOf_constLexemes hnew) hothers

end Grammar
end Xdr
