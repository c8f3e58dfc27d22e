import Xdr.Proofs.Bundle.Agreement
import Xdr.Proofs.Decl.Lexemes
import Xdr.Proofs.Numeral

/-!
# The numbers of a bundle

The lengths, bounds and numbers that have to be unsigned in emitted code,
and where following the names in them ends.

## Main Statements

* `Bundle.evaluateWithin_of_follows` — evaluation finds the literal at the
  end, if it is near enough
* `Bundle.exists_follows` — where every name is defined, there is a literal
  near enough or a name too far
* `Bundle.isSome_value?_of_mem_integers` — literals of a source have a value
* `Bundle.exists_define_of_follows` — a literal without a value comes from
  outside
-/

namespace Xdr

open IntExpr List Numeral

namespace Bundle

variable {bundle : Bundle} {steps limit : Nat} {expr last : IntExpr}

/-! ### Following names -/

/-- Following names from an expression, each to its first definition, leads
to another in so many steps. -/
inductive Follows (bundle : Bundle) : Nat → IntExpr → IntExpr → Prop where
  | refl (expr : IntExpr) : Follows bundle 0 expr expr
  | step {name first steps last} (hfirst : (bundle.definitionsOf name).head? = some first)
      (hrest : Follows bundle steps first.value last) :
      Follows bundle (steps + 1) (.name name) last

theorem Follows.snoc {name} (h : bundle.Follows steps expr (.name name)) {first}
    (hfirst : (bundle.definitionsOf name).head? = some first) :
    bundle.Follows (steps + 1) expr first.value := by
  generalize hlast : IntExpr.name name = last at h
  induction h with
  | refl expr =>
    subst hlast
    exact .step hfirst (.refl _)
  | step hhere _ ih => exact .step hhere (ih hlast)

/-- What is reached is the expression itself or the value of a definition. -/
theorem Follows.eq_or_exists (h : bundle.Follows steps expr last) :
    expr = last ∨ ∃ definition ∈ bundle.definitions, definition.value = last := by
  induction h with
  | refl expr => exact .inl rfl
  | @step name first _ _ hfirst _ ih =>
    refine .inr ?_
    rcases ih with rfl | hlater
    · exact ⟨first, (mem_definitionsOf.mp (mem_of_head? hfirst)).1, rfl⟩
    · exact hlater

/-- Evaluation finds the literal at the end, if it is near enough. -/
theorem evaluateWithin_of_follows {text} (h : bundle.Follows steps expr (.literal text))
    (hle : steps ≤ limit) :
    bundle.evaluateWithin limit expr = value? text.toList := by
  generalize hlast : literal text = last at h
  induction h generalizing limit with
  | refl expr =>
    subst hlast
    rw [evaluateWithin_literal]
  | step hfirst _ ih =>
    obtain ⟨limit, rfl⟩ := Nat.exists_eq_add_of_le' (Nat.lt_of_lt_of_le (Nat.succ_pos _) hle)
    rw [evaluateWithin_name, hfirst, Option.bind_some]
    exact ih (Nat.le_of_succ_le_succ hle) hlast

/-- **Where following names ends.**  If every name on the way is defined,
there is a literal near enough, or still a name at the limit. -/
theorem exists_follows
    (hdefined : ∀ steps name,
      bundle.Follows steps expr (.name name) → bundle.definitionsOf name ≠ []) (limit : Nat) :
    (∃ steps ≤ limit, ∃ text, bundle.Follows steps expr (.literal text)) ∨
      ∃ name, bundle.Follows limit expr (.name name) := by
  induction limit with
  | zero =>
    cases expr with
    | literal text => exact .inl ⟨0, Nat.le_refl 0, text, .refl _⟩
    | name name => exact .inr ⟨name, .refl _⟩
  | succ limit ih =>
    rcases ih with ⟨steps, hle, text, h⟩ | ⟨name, h⟩
    · exact .inl ⟨steps, Nat.le_succ_of_le hle, text, h⟩
    · obtain ⟨first, others, hlist⟩ := exists_cons_of_ne_nil (hdefined limit name h)
      have hnext := h.snoc (congrArg head? hlist)
      cases hvalue : first.value with
      | literal text => exact .inl ⟨limit + 1, Nat.le_refl _, text, hvalue ▸ hnext⟩
      | name other => exact .inr ⟨other, hvalue ▸ hnext⟩

end Bundle

/-! ### Other integers in the same places -/

section Values

variable {f : IntExpr → IntExpr}

theorem Form.lengths_mapValues (form : Form) :
    (form.mapValues f).lengths = form.lengths.map f := by
  cases form with
  | plain | pointer => rfl
  | array length fixed => cases length <;> rfl

theorem StructDecl.lengths_mapValues (decl : StructDecl) :
    (decl.mapValues f).lengths = decl.lengths.map f := by
  simp [lengths, mapValues, Field.mapValues, flatMap_map, map_flatMap,
    Form.lengths_mapValues]

theorem UnionDecl.lengths_mapValues (decl : UnionDecl) :
    (decl.mapValues f).lengths = decl.lengths.map f := by
  simp [lengths, mapValues, Case.mapValues, flatMap_map, map_flatMap,
    Form.lengths_mapValues]

theorem Case.field?_mapValues (case : Case) :
    (case.mapValues f).field? = case.field?.map (Field.mapValues f) := by
  obtain ⟨label, type, name, form⟩ := case
  cases type with
  | none => rfl
  | some type => cases name <;> rfl

theorem ProgramDecl.numbers_mapValues (decl : ProgramDecl) :
    (decl.mapValues f).numbers = decl.numbers.map f := by
  simp [numbers, mapValues, VersionDecl.mapValues, ProcDecl.mapValues, flatMap_map,
    map_flatMap, Function.comp_def]

end Values

namespace Bundle

/-! ### Numbers -/

/-- The lengths, bounds and numbers of a bundle. -/
def numbers (bundle : Bundle) : List IntExpr :=
  bundle.structs.flatMap StructDecl.lengths ++ bundle.unions.flatMap UnionDecl.lengths ++
    bundle.typedefs.flatMap (fun field =>
      field.form.lengths) ++ bundle.programs.flatMap ProgramDecl.numbers

section Source

variable {decls : List Decl} {defines : List Define}

/-- What the declarations of one kind hold, in canonical spelling, are
integers of some declaration. -/
theorem exists_of_mem_kind {α : Type} {kind : Decl → Option α} {spelled : α → α}
    {integers : α → List IntExpr}
    (hkind : ∀ {decl item}, kind decl = some item → integers item = decl.integers)
    (hspelled : ∀ item, integers (spelled item) = (integers item).map IntExpr.canonical)
    {number : IntExpr} (h : number ∈ ((decls.filterMap kind).map spelled).flatMap integers) :
    ∃ decl ∈ decls, ∃ value ∈ decl.integers, value.canonical = number := by
  obtain ⟨_, hmem, hnumber⟩ := mem_flatMap.mp h
  obtain ⟨item, hitem, rfl⟩ := mem_map.mp hmem
  obtain ⟨decl, hdecl, heq⟩ := mem_filterMap.mp hitem
  rw [hspelled, hkind heq] at hnumber
  exact ⟨decl, hdecl, mem_map.mp hnumber⟩

/-- A number of a bundle is an integer of some declaration. -/
theorem exists_of_mem_numbers {number : IntExpr}
    (h : number ∈ (ofDecls decls defines).numbers) :
    ∃ decl ∈ decls, ∃ value ∈ decl.integers, value.canonical = number := by
  simp only [numbers, mem_append] at h
  rcases h with ((hstruct | hunion) | htypedef) | hprogram
  · exact exists_of_mem_kind (by rintro ⟨⟩ _ ⟨⟩; rfl) StructDecl.lengths_mapValues hstruct
  · exact exists_of_mem_kind (by rintro ⟨⟩ _ ⟨⟩; rfl) UnionDecl.lengths_mapValues hunion
  · exact exists_of_mem_kind (by rintro ⟨⟩ _ ⟨⟩; rfl) (fun field =>
      field.form.lengths_mapValues) htypedef
  · exact exists_of_mem_kind (by rintro ⟨⟩ _ ⟨⟩; rfl) ProgramDecl.numbers_mapValues hprogram

/-- What a name is defined as is a truth value, comes from outside, or is an
integer of some declaration. -/
theorem exists_of_mem_definitions {definition : Definition}
    (h : definition ∈ (ofDecls decls defines).definitions) :
    definition ∈ truths ∨
      (∃ outside ∈ outsideConsts decls defines, outside.value.canonical = definition.value) ∨
      ∃ decl ∈ decls, ∃ value ∈ decl.integers, value.canonical = definition.value := by
  rcases mem_append.mp h with h | hmember
  · rcases mem_append.mp h with htruth | hconst
    · exact .inl htruth
    · obtain ⟨decl, hdecl, rfl⟩ := mem_map.mp hconst
      rcases mem_consts_ofDecls.mp hdecl with ⟨outside, houtside, rfl⟩ |
        ⟨declared, hdeclared, rfl⟩
      · exact .inr (.inl ⟨outside, houtside, rfl⟩)
      · exact .inr (.inr ⟨_, hdeclared, declared.value, mem_singleton_self _, rfl⟩)
  · obtain ⟨enum, henum, hmap⟩ := mem_flatMap.mp hmember
    obtain ⟨member, hmem, rfl⟩ := mem_map.mp hmap
    have hvalue : member.value ∈ (ofDecls decls defines).enums.flatMap fun decl =>
        decl.members.map EnumMember.value :=
      mem_flatMap.mpr ⟨enum, henum, mem_map.mpr ⟨member, hmem, rfl⟩⟩
    refine .inr (.inr (exists_of_mem_kind (by rintro ⟨⟩ _ ⟨⟩; rfl) (fun decl => ?_) hvalue))
    simp [EnumDecl.canonical, EnumDecl.mapValues, EnumMember.mapValues, Function.comp_def]

/-- A constant from outside is the integer of a definition. -/
theorem exists_define_of_mem_outsideConsts {outside}
    (h : outside ∈ outsideConsts decls defines) :
    ∃ define ∈ defines, ∃ digits, define.value = .int digits ∧ outside.value =
      .literal digits := by
  obtain ⟨define, hdefine, hsome⟩ := mem_filterMap.mp h
  dsimp only at hsome
  split at hsome
  · next digits hvalue =>
    split at hsome <;> cases hsome
    exact ⟨define, hdefine, digits, hvalue, rfl⟩
  · cases hsome

variable {lexemes : List Lexeme}
    (hfile : Grammar.File (Symbols.ofDefines defines) decls lexemes)
include hfile

/-- An array in a union belongs to the field of a case. -/
theorem exists_field_of_mem_unions {decl} (hdecl : decl ∈ (ofDecls decls defines).unions)
    {case} (hcase : case ∈ decl.cases) {length} (hlength : length ∈ case.form.lengths) :
    ∃ field, case.field? = some field ∧ field.form = case.form := by
  obtain ⟨declared, hdeclared, rfl⟩ := mem_map.mp hdecl
  obtain ⟨kind, hkind, heq⟩ := mem_filterMap.mp hdeclared
  cases kind <;> cases heq
  obtain ⟨source, hsource, rfl⟩ := mem_map.mp hcase
  rw [Case.mapValues, Form.lengths_mapValues] at hlength
  obtain ⟨written, hwritten, _⟩ := mem_map.mp hlength
  obtain ⟨field, hfield, hform⟩ := hfile.exists_field hkind hsource hwritten
  refine ⟨field.canonical, ?_, congrArg (Form.mapValues canonical) hform⟩
  rw [Case.field?_mapValues, hfield]
  rfl

variable (hcheck : ∀ {text : String}, .literal text ∈ lexemes → check text.toList = none)
include hcheck

/-- **Literals of a source have a value.** -/
theorem isSome_value?_of_mem_integers {decl : Decl} (hdecl : decl ∈ decls) {value : IntExpr}
    (hvalue : value ∈ decl.integers) {text : String} (heq : value.canonical = .literal text) :
    (value? text.toList).isSome := by
  cases value with
  | name name => cases heq
  | literal source =>
    cases heq
    rw [String.toList_ofList]
    exact isSome_value?_canonical (hcheck (hfile.literal_mem hdecl hvalue))

/-- **A literal without a value comes from outside.** -/
theorem exists_define_of_follows {number : IntExpr}
    (hnumber : number ∈ (ofDecls decls defines).numbers)
    {text : String} (hfollows : (ofDecls decls defines).Follows steps number (.literal text))
    (hnone : value? text.toList = none) :
    ∃ define ∈ defines, ∃ digits, define.value = .int digits ∧
      canonical (.literal digits) = .literal text := by
  have hdeclared : ∀ {value : IntExpr},
    (∃ decl ∈ decls, ∃ source ∈ decl.integers, source.canonical = value) →
      value ≠ .literal text := by
    rintro value ⟨decl, hdecl, source, hsource, hspelled⟩ rfl
    have hsome := isSome_value?_of_mem_integers hfile hcheck hdecl hsource hspelled
    rw [hnone] at hsome
    cases hsome
  rcases hfollows.eq_or_exists with rfl | ⟨definition, hdefinition, heq⟩
  · exact absurd rfl (hdeclared (exists_of_mem_numbers hnumber))
  · rcases exists_of_mem_definitions hdefinition with htruth |
      ⟨outside, houtside, hspelled⟩ | hsource
    · rcases mem_pair.mp htruth with rfl | rfl <;> cases heq <;> cases hnone
    · obtain ⟨define, hdefine, digits, hvalue, hdigits⟩ :=
        exists_define_of_mem_outsideConsts houtside
      exact ⟨define, hdefine, digits, hvalue, hdigits ▸ hspelled.trans heq⟩
    · exact absurd heq (hdeclared hsource)

end Source

end Bundle
end Xdr
