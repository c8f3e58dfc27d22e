import Mathlib.Data.List.Nodup
import Xdr.CommandLine.Run
import Xdr.Proofs.Bundle.Defines
import Xdr.Proofs.Decl.Lexemes
import Xdr.Proofs.Decl.Promptness
import Xdr.Proofs.Json

/-!
# Declarations shown as JSON

Integers, types and labels are shown as plain strings, whatever they are,
and what is absent is left out.  Still, nothing is lost: a literal is no
name, a name is no keyword and has no blank in it, and so every string tells
what it stands for.  This holds of declarations that come from a source;
made up ones may well look the same.

## Main Statements

* `IntExpr.eq_of_text`, `TypeRef.eq_of_text`, `Label.eq_of_text` — what is
  shown as a string
* `Form.eq_of_same` — what is shown by the members of an object
* `Decl.told` — declarations
* `Decl.eq_of_same_dump` — the declarations of sources
-/

namespace Xdr

open Decl Table

/-- All of the lexemes can be spelled. -/
def Lexeme.AllSpellable (lexemes : List Lexeme) : Prop :=
  ∀ lexeme ∈ lexemes, lexeme.Spellable

namespace Lexeme

@[simp] theorem allSpellable_cons {lexeme lexemes} :
    AllSpellable (lexeme :: lexemes) ↔ lexeme.Spellable ∧ AllSpellable lexemes :=
  List.forall_mem_cons

@[simp] theorem allSpellable_append {lexemes others} :
    AllSpellable (lexemes ++ others) ↔ AllSpellable lexemes ∧ AllSpellable others :=
  List.forall_mem_append

@[simp] theorem allSpellable_flatMap {α : Type} {items : List α} {lexemes} :
    AllSpellable (items.flatMap lexemes) ↔ ∀ item ∈ items, AllSpellable (lexemes item) :=
  List.forall_mem_flatMap

end Lexeme

open Lexeme

/-! ### Strings -/

open Classical in
/-- Whether the text is a word tells a name from a literal. -/
theorem IntExpr.eq_ite_word {value : IntExpr} (h : value.lexeme.Spellable) :
    value = if Word value.text.toList then .name value.text else .literal value.text := by
  cases value with
  | literal text => exact (if_neg (IsNumeral.not_word h)).symm
  | name name => exact (if_pos (IsName.word h)).symm

theorem IntExpr.eq_of_text {value other : IntExpr} (hvalue : value.lexeme.Spellable)
    (hother : other.lexeme.Spellable) (h : value.text = other.text) : value = other := by
  rw [eq_ite_word hvalue, h]
  exact (eq_ite_word hother).symm

/-- An integer is not shown as a keyword. -/
theorem IntExpr.text_ne_keyword {value : IntExpr} (h : value.lexeme.Spellable)
    (keyword : Keyword) : value.text ≠ keyword.spelling := by
  cases value with
  | literal text =>
    rintro (rfl : text = keyword.spelling)
    exact IsNumeral.not_word h keyword.word_spelling
  | name name => exact IsName.ne_keyword h keyword

theorem Label.eq_of_text {label other : Label} (hlabel : AllSpellable label.lexemes)
    (hother : AllSpellable other.lexemes) (h : label.text = other.text) : label = other := by
  cases label with
  | value value =>
    have hvalue := hlabel _ List.mem_cons_self
    cases other with
    | value value' =>
      exact congrArg _ (IntExpr.eq_of_text hvalue (hother _ List.mem_cons_self) h)
    | otherwise => exact absurd h (IntExpr.text_ne_keyword hvalue .defaultLabel)
  | otherwise =>
    cases other with
    | value value' =>
      exact absurd h.symm (IntExpr.text_ne_keyword (hother _ List.mem_cons_self)
        .defaultLabel)
    | otherwise => rfl

namespace TypeRef

/-- The types that are not declared. -/
def builtIn : List TypeRef :=
  [.int, .uint, .hyper, .uhyper, .float, .double, .bool, .string, .opaqueData, .netobj, .void]

theorem mem_builtIn (type : TypeRef) : type ∈ builtIn ∨ ∃ name, type = .named name := by
  cases type with
  | named name => exact .inr ⟨name, rfl⟩
  | _ => exact .inl (by decide)

/-- No type is declared under the text of a primitive one: that is a
keyword, or two of them with a blank. -/
theorem not_isName_text {type : TypeRef} (h : type ∈ builtIn) : ¬ IsName type.text := by
  intro hname
  have htext : ∀ type ∈ builtIn, (∃ keyword ∈ Keyword.all, type.text = keyword.spelling) ∨
      ' ' ∈ type.text.toList := by decide
  rcases htext type h with ⟨keyword, -, htext⟩ | hblank
  · exact hname.ne_keyword keyword htext
  · exact absurd (hname.word.visible ' ' hblank).1 (by decide)

theorem eq_of_text {type other : TypeRef} (htype : AllSpellable type.lexemes)
    (hother : AllSpellable other.lexemes) (h : type.text = other.text) : type = other := by
  have hname : ∀ {name}, AllSpellable (named name).lexemes → IsName (named name).text :=
    fun hspelled => hspelled _ List.mem_cons_self
  rcases type.mem_builtIn with hprimitive | ⟨name, rfl⟩
  · rcases other.mem_builtIn with hprimitive' | ⟨name', rfl⟩
    · have hnodup : (builtIn.map text).Nodup := by decide
      exact List.inj_on_of_nodup_map hnodup hprimitive hprimitive' h
    · exact absurd (h ▸ hname hother) (not_isName_text hprimitive)
  · rcases other.mem_builtIn with hprimitive' | ⟨name', rfl⟩
    · exact absurd (h ▸ hname htype) (not_isName_text hprimitive')
    · exact congrArg named h

end TypeRef

/-! ### Objects -/

open Json

namespace Form

/-- The keys of the members that tell a form. -/
def keys : List String :=
  ["note", "length", "fixed"]

theorem find?_jsonMembers_of_notMem {key} (h : key ∉ keys) (form : Form) :
    find? form.jsonMembers key = none := by
  simp only [keys, List.mem_cons, List.not_mem_nil, or_false, not_or] at h
  rcases form with _ | ⟨_ | length, fixed⟩ | _ <;>
    simp [jsonMembers, find?_cons, find?_nil, h]

theorem eq_of_same {form other : Form} (hform : AllSpellable form.lexemes)
    (hother : AllSpellable other.lexemes)
    (h : ∀ key ∈ keys,
      Option.Rel Same (find? form.jsonMembers key) (find? other.jsonMembers key)) :
    form = other := by
  have hnote := h "note" (by decide)
  have hlength := h "length" (by decide)
  have hfixed := h "fixed" (by decide)
  -- Forms of two kinds differ in the note, or in that there is a length.
  rcases form with _ | ⟨_ | length, fixed⟩ | _ <;>
    rcases other with _ | ⟨_ | length', fixed'⟩ | _ <;>
    simp [jsonMembers, find?_cons, find?_nil, IntExpr.toJson] at hnote hlength hfixed
  · rfl
  · rw [hfixed]
  · have hvalue : length = length' :=
      IntExpr.eq_of_text (hform _ (by simp [lexemes, lengths]))
        (hother _ (by simp [lexemes, lengths])) hlength
    rw [hvalue, hfixed]
  · rfl

end Form

theorem IntExpr.told : Told (·.lexeme.Spellable) toJson :=
  fun _ _ hvalue hother h => eq_of_text hvalue hother (same_string.mp h)

theorem TypeRef.told : Told (AllSpellable ·.lexemes) toJson :=
  fun _ _ htype hother h => eq_of_text htype hother (same_string.mp h)

theorem Field.told : Told (AllSpellable ·.lexemes) (.object <| jsonMembers ·) := by
  intro field other hfield hother h
  have hname := @Form.find?_jsonMembers_of_notMem "name" (by decide)
  have htype := @Form.find?_jsonMembers_of_notMem "type" (by decide)
  simp only [lexemes, allSpellable_cons, allSpellable_append] at hfield hother
  obtain ⟨hname, h⟩ := h.of_cons (hname _) (hname _)
  obtain ⟨htype, h⟩ := h.of_cons (htype _) (htype _)
  have htype := TypeRef.told hfield.2.1 hother.2.1 htype
  have hform := Form.eq_of_same hfield.2.2 hother.2.2 fun key _ => same_object.mp h key
  cases field
  cases other
  simp_all

theorem ConstDecl.told : Told (·.value.lexeme.Spellable) (.object <| jsonMembers ·) := by
  intro decl other hdecl hother h
  obtain ⟨hname, h⟩ := h.of_cons rfl rfl
  have hvalue := IntExpr.told hdecl hother (h.of_cons rfl rfl).1
  cases decl
  cases other
  simp_all

theorem EnumMember.told : Told (AllSpellable ·.lexemes) toJson := by
  intro member other hmember hother h
  simp only [lexemes, allSpellable_cons] at hmember hother
  obtain ⟨hname, h⟩ := h.of_cons rfl rfl
  have hvalue := IntExpr.told hmember.2.1 hother.2.1 (h.of_cons rfl rfl).1
  cases member
  cases other
  simp_all

theorem EnumDecl.told :
    Told (AllSpellable <| lexemes <| enum ·) (.object <| jsonMembers ·) := by
  intro decl other hdecl hother h
  simp only [lexemes, allSpellable_cons, allSpellable_flatMap] at hdecl hother
  obtain ⟨hname, h⟩ := h.of_cons rfl rfl
  have hmembers := EnumMember.told.array hdecl.2 hother.2 (h.of_cons rfl rfl).1
  cases decl
  cases other
  simp_all

theorem StructDecl.told :
    Told (AllSpellable <| lexemes <| struct ·) (.object <| jsonMembers ·) := by
  intro decl other hdecl hother h
  simp only [lexemes, allSpellable_cons, allSpellable_flatMap] at hdecl hother
  obtain ⟨hname, h⟩ := h.of_cons rfl rfl
  have hfields := Field.told.array hdecl.2 hother.2 (h.of_cons rfl rfl).1
  cases decl
  cases other
  simp_all

namespace Case

/-- The member under `key`, if there is a value for it. -/
def memberOf (key : String) (value : Option Json) : List (String × Json) :=
  value.toList.map fun value => (key, value)

theorem find?_memberOf (key : String) (value : Option Json) (other : String) :
    find? (memberOf key value) other = if other = key then value else none := by
  cases value with
  | none => simp [memberOf, find?_nil]
  | some value => simp [memberOf, find?_cons, find?_nil]

theorem toJson_eq (case : Case) :
    case.toJson = .object ([("label", .string case.label.text)] ++
      memberOf "type" (case.type.map TypeRef.toJson) ++
      memberOf "name" (case.name.map .string) ++
      case.form.jsonMembers) := by
  obtain ⟨label, type, name, form⟩ := case
  cases type <;> cases name <;> rfl

theorem told : Told (AllSpellable ·.lexemes) toJson := by
  intro case other hcase hother h
  rw [toJson_eq, toJson_eq, same_object] at h
  simp only [find?_append, find?_cons, find?_nil, find?_memberOf] at h
  simp only [lexemes, allSpellable_append] at hcase hother
  obtain ⟨⟨⟨hlabel, htype⟩, -⟩, hform⟩ := hcase
  obtain ⟨⟨⟨hlabel', htype'⟩, -⟩, hform'⟩ := hother
  have hlabel : case.label = other.label := by
    refine Label.eq_of_text hlabel hlabel' ?_
    simpa using h "label"
  have htype : case.type = other.type := by
    refine eq_of_rel_same TypeRef.told (by simpa using htype) (by simpa using htype') ?_
    simpa [Form.find?_jsonMembers_of_notMem, Form.keys] using h "type"
  have hname : case.name = other.name := by
    refine eq_of_rel_same (P := fun _ => True) (fun _ _ _ _ =>
      same_string.mp) (by simp) (by simp) ?_
    simpa [Form.find?_jsonMembers_of_notMem, Form.keys] using h "name"
  have hform : case.form = other.form := by
    refine Form.eq_of_same hform hform' fun key hkey => ?_
    have hne : key ≠ "label" ∧ key ≠ "type" ∧ key ≠ "name" := by
      refine ⟨?_, ?_, ?_⟩ <;> rintro rfl <;> revert hkey <;> decide
    simpa [hne] using h key
  cases case
  cases other
  simp_all

end Case

theorem UnionDecl.told :
    Told (AllSpellable <| lexemes <| union ·) (.object <| jsonMembers ·) := by
  intro decl other hdecl hother h
  simp only [lexemes, allSpellable_append, allSpellable_flatMap] at hdecl hother
  obtain ⟨hname, h⟩ := h.of_cons rfl rfl
  obtain ⟨hdiscriminant, h⟩ := h.of_cons rfl rfl
  obtain ⟨htype, hvariable⟩ := hdiscriminant.of_cons rfl rfl
  have htype := TypeRef.told hdecl.1.2 hother.1.2 htype
  have hvariable := (hvariable.of_cons rfl rfl).1
  have hcases := Case.told.array hdecl.2 hother.2 (h.of_cons rfl rfl).1
  obtain ⟨name, ⟨⟩, cases⟩ := decl
  obtain ⟨name', ⟨⟩, cases'⟩ := other
  simp_all

theorem ProcDecl.told : Told (AllSpellable ·.lexemes) toJson := by
  intro proc other hproc hother h
  simp only [lexemes, allSpellable_append, allSpellable_cons] at hproc hother
  obtain ⟨⟨⟨-, hid, -⟩, harg⟩, hres⟩ := hproc
  obtain ⟨⟨⟨-, hid', -⟩, harg'⟩, hres'⟩ := hother
  obtain ⟨hsameId, h⟩ := h.of_cons rfl rfl
  obtain ⟨hname, h⟩ := h.of_cons rfl rfl
  obtain ⟨hsameArg, h⟩ := h.of_cons rfl rfl
  have hid := IntExpr.told hid hid' hsameId
  have harg := TypeRef.told harg harg' hsameArg
  have hres := TypeRef.told hres hres' (h.of_cons rfl rfl).1
  cases proc
  cases other
  simp_all

theorem VersionDecl.told : Told (AllSpellable ·.lexemes) toJson := by
  intro version other hversion hother h
  simp only [lexemes, allSpellable_append, allSpellable_cons, allSpellable_flatMap]
    at hversion hother
  obtain ⟨hname, h⟩ := h.of_cons rfl rfl
  obtain ⟨hnumber, h⟩ := h.of_cons rfl rfl
  have hnumber := IntExpr.told hversion.1.2.1 hother.1.2.1 hnumber
  have hprocs := ProcDecl.told.array hversion.2 hother.2 (h.of_cons rfl rfl).1
  cases version
  cases other
  simp_all

theorem ProgramDecl.told :
    Told (AllSpellable <| lexemes <| program ·) (.object <| jsonMembers ·) := by
  intro decl other hdecl hother h
  simp only [lexemes, allSpellable_append, allSpellable_cons, allSpellable_flatMap]
    at hdecl hother
  obtain ⟨hname, h⟩ := h.of_cons rfl rfl
  obtain ⟨hnumber, h⟩ := h.of_cons rfl rfl
  have hnumber := IntExpr.told hdecl.1.2.1 hother.1.2.1 hnumber
  have hversions := VersionDecl.told.array hdecl.2 hother.2 (h.of_cons rfl rfl).1
  cases decl
  cases other
  simp_all

/-! ### Declarations -/

namespace Decl

theorem find?_kind (decl : Decl) : find? decl.jsonMembers "kind" = none := by
  cases decl with
  | typeDef field =>
    simp [jsonMembers, Field.jsonMembers, find?_cons,
      Form.find?_jsonMembers_of_notMem, Form.keys]
  | const | enum | struct | union | program => rfl

/-- **Declarations that look the same are the same**, if their names and
literals can be spelled. -/
theorem told : Told (AllSpellable ·.lexemes) toJson := by
  intro decl other hdecl hother h
  obtain ⟨hkind, hmembers⟩ := h.of_cons decl.find?_kind other.find?_kind
  rw [same_string] at hkind
  cases decl with
  | const decl =>
    cases other with
    | const other =>
      simp only [lexemes, allSpellable_cons] at hdecl hother
      exact congrArg const (ConstDecl.told hdecl.2.1 hother.2.1 hmembers)
    | _ => simp [kind] at hkind
  | enum decl =>
    cases other with
    | enum other => exact congrArg enum (EnumDecl.told hdecl hother hmembers)
    | _ => simp [kind] at hkind
  | struct decl =>
    cases other with
    | struct other => exact congrArg struct (StructDecl.told hdecl hother hmembers)
    | _ => simp [kind] at hkind
  | union decl =>
    cases other with
    | union other => exact congrArg union (UnionDecl.told hdecl hother hmembers)
    | _ => simp [kind] at hkind
  | typeDef field =>
    cases other with
    | typeDef other => exact congrArg typeDef (Field.told hdecl hother hmembers)
    | _ => simp [kind] at hkind
  | program decl =>
    cases other with
    | program other => exact congrArg program (ProgramDecl.told hdecl hother hmembers)
    | _ => simp [kind] at hkind

theorem allSpellable_of_parse {symbols name bytes parsed}
    (h : parse symbols (.ofBytes name bytes) = .ok parsed) :
    ∀ decl ∈ parsed.decls, AllSpellable decl.lexemes := by
  obtain ⟨found, hconsists, hfile, -⟩ := parse_eq_ok_iff_consistsOf.mp h
  intro decl hdecl lexeme hlexeme
  exact hconsists.exists_spells lexeme (hfile.lexemes_subset hdecl hlexeme)

/-- **What is shown of a source determines its declarations**, whatever the
order in which the members of objects come.  No integer of the one source is
shown like another one of the other, and neither is a type, a label or a
form. -/
theorem eq_of_same_dump {symbols symbols' : Symbols} {name name' : String}
    {bytes bytes' : List UInt8} {parsed parsed' : Parsed}
    (h : parse symbols (.ofBytes name bytes) = .ok parsed)
    (h' : parse symbols' (.ofBytes name' bytes') = .ok parsed') :
    (Same (CommandLine.dump parsed) (CommandLine.dump parsed') →
      parsed.decls = parsed'.decls) ∧
    (Same (.array (parsed.decls.map toJson)) (.array (parsed'.decls.map toJson)) ↔
      parsed.decls = parsed'.decls) ∧
    ∀ decl ∈ parsed.decls, ∀ decl' ∈ parsed'.decls,
      (∀ value value' : IntExpr, value.lexeme ∈ decl.lexemes → value'.lexeme ∈ decl'.lexemes →
        value.text = value'.text → value = value') ∧
      (∀ type type' : TypeRef, type.lexemes ⊆ decl.lexemes → type'.lexemes ⊆ decl'.lexemes →
        type.text = type'.text → type = type') ∧
      (∀ label label' : Label, label.lexemes ⊆ decl.lexemes → label'.lexemes ⊆ decl'.lexemes →
        label.text = label'.text → label = label') ∧
      (∀ form form' : Form, form.lexemes ⊆ decl.lexemes → form'.lexemes ⊆ decl'.lexemes →
        Same (.object form.jsonMembers) (.object form'.jsonMembers) → form = form') := by
  have hspelled := allSpellable_of_parse h
  have hspelled' := allSpellable_of_parse h'
  refine ⟨fun hdump => ?_, ⟨told.array hspelled hspelled', fun hsame => ?_⟩, ?_⟩
  · rw [CommandLine.dump, CommandLine.dump, same_object] at hdump
    refine told.array hspelled hspelled' ?_
    simpa [Table.find?_cons, -same_array] using hdump "declarations"
  · rw [hsame]
    exact Same.refl _
  · intro decl hdecl decl' hdecl'
    have hfound := hspelled decl hdecl
    have hfound' := hspelled' decl' hdecl'
    refine ⟨?_, ?_, ?_, ?_⟩
    · intro value value' hvalue hvalue'
      exact IntExpr.eq_of_text (hfound _ hvalue) (hfound' _ hvalue')
    · intro type type' htype htype'
      exact TypeRef.eq_of_text (fun _ hmem => hfound _ (htype hmem)) fun _ hmem =>
        hfound' _ (htype' hmem)
    · intro label label' hlabel hlabel'
      exact Label.eq_of_text (fun _ hmem => hfound _ (hlabel hmem)) fun _ hmem =>
        hfound' _ (hlabel' hmem)
    · intro form form' hform hform' hsame
      exact Form.eq_of_same (fun _ hmem => hfound _ (hform hmem)) (fun _ hmem =>
        hfound' _ (hform' hmem)) fun key _ => same_object.mp hsame key

/-- A bound by a name is not shown like the same bound by a literal. -/
theorem not_same_dump_bound :
    ∃ parsed parsed',
      parse .initial (.ofText "named" "const N = 3; typedef int t<N>;") = .ok parsed ∧
      parse .initial (.ofText "literal" "const N = 3; typedef int t<3>;") = .ok parsed' ∧
      ¬ Same (CommandLine.dump parsed) (CommandLine.dump parsed') := by
  obtain ⟨parsed, hparse, hdecls⟩ :=
    @exists_parsed .initial (.ofText "named" "const N = 3; typedef int t<N>;")
      [.const ⟨"N", .literal "3"⟩,
        .typeDef ⟨"t", .int, .array (some (.name "N")) false⟩] (by decide +kernel)
  obtain ⟨parsed', hparse', hdecls'⟩ :=
    @exists_parsed .initial (.ofText "literal" "const N = 3; typedef int t<3>;")
      [.const ⟨"N", .literal "3"⟩,
        .typeDef ⟨"t", .int, .array (some (.literal "3")) false⟩] (by decide +kernel)
  refine ⟨parsed, parsed', hparse, hparse', fun hsame => ?_⟩
  have heq := (eq_of_same_dump hparse hparse').1 hsame
  rw [hdecls, hdecls'] at heq
  revert heq
  decide

end Decl
end Xdr
