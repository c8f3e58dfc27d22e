import Mathlib.Data.List.Pairwise
import Xdr.Proofs.Emit.Discriminants
import Xdr.Proofs.Emit.Reports

/-!
# What is wrong with a bundle

A bundle can be emitted if its names are known, its numbers are in range,
its types are declared and its unions can tell their arms.  Each condition
is stated here twice: as a property, and as the list of what violates it, in
the order of the declarations.

## Main Statements

* `Bundle.violations_eq_nil_iff` — nothing is wrong with a bundle if and
  only if it is well-formed
-/

namespace Xdr

open Case List Primitive

namespace Bundle

variable {context : String} {type : TypeRef} {value : IntExpr}

/-! ### Names and numbers -/

section Conditions

variable (bundle : Bundle)

/-- An integer that is given by a name is one that emitted code can refer
to. -/
def Knows (value : IntExpr) : Prop :=
  ∀ name, value = .name name → (bundle.expressions.find? name).isSome

/-- A length or number that can be emitted: its name is known, and it is
unsigned and of 32 bits as far as it can be evaluated. -/
structure Counts (value : IntExpr) : Prop where
  known : bundle.Knows value
  inRange : ∀ number, bundle.evaluate value = some number → 0 ≤ number ∧ number ≤ maxUnsigned

/-- A type that has values: a primitive one other than void, or a declared
one. -/
def Declares (type : TypeRef) : Prop :=
  type.primitive?.isSome ∨ ∃ name, type = .named name ∧ (bundle.resolve? name).isSome

/-- A field that can be emitted: its type has values, a fixed array has a
length, and lengths are numbers. -/
structure Holds (type : TypeRef) (form : Form) : Prop where
  declared : bundle.Declares type
  measured : form ≠ .array none true
  counted : ∀ length fixed, form = .array (some length) fixed → bundle.Counts length

/-- What is wrong with the name of an integer. -/
def nameViolations (value : IntExpr) (context : String) : List EmitError :=
  match value with
  | .literal _ => []
  | .name name =>
    if (bundle.expressions.find? name).isSome then [] else [.unknownValue name context]

/-- What is wrong with the value of a length or number. -/
def rangeViolations (value : IntExpr) (context : String) : List EmitError :=
  match bundle.evaluate value with
  | some number =>
    (if number < 0 then [.negativeBound context number] else []) ++
      (if maxUnsigned < number then [.outOfRange context number "u32"] else [])
  | none => []

/-- What is wrong with a length or number. -/
def countViolations (value : IntExpr) (context : String) : List EmitError :=
  bundle.rangeViolations value context ++ bundle.nameViolations value context

/-- What is wrong with a type. -/
def typeViolations (type : TypeRef) (context : String) : List EmitError :=
  match type with
  | .void => [.voidField context]
  | .named name => if (bundle.resolve? name).isSome then [] else [.unknownType name context]
  | _ => []

/-- What is wrong with a form. -/
def formViolations (form : Form) (context : String) : List EmitError :=
  match form with
  | .array (some length) _ => bundle.countViolations length context
  | .array none true => [.missingLength context]
  | _ => []

/-- What is wrong with a field. -/
def fieldViolations (type : TypeRef) (form : Form) (context : String) : List EmitError :=
  bundle.typeViolations type context ++ bundle.formViolations form context

end Conditions

variable {bundle : Bundle}

theorem nameViolations_eq_nil :
    bundle.nameViolations value context = [] ↔ bundle.Knows value := by
  unfold nameViolations Knows
  cases value with
  | literal text => simp
  | name name => simp [Option.isSome_iff_ne_none]

theorem rangeViolations_eq_nil :
    bundle.rangeViolations value context = [] ↔
      ∀ number, bundle.evaluate value = some number → 0 ≤ number ∧ number ≤ maxUnsigned := by
  unfold rangeViolations
  cases bundle.evaluate value with
  | none => simp
  | some number => simp

theorem countViolations_eq_nil :
    bundle.countViolations value context = [] ↔ bundle.Counts value := by
  rw [countViolations, append_eq_nil_iff, rangeViolations_eq_nil, nameViolations_eq_nil]
  exact ⟨fun h => ⟨h.2, h.1⟩, fun h => ⟨h.inRange, h.known⟩⟩

theorem typeViolations_eq_nil :
    bundle.typeViolations type context = [] ↔ bundle.Declares type := by
  unfold typeViolations Declares
  cases type with
  | named name => simp [TypeRef.primitive?, Option.isSome_iff_ne_none]
  | _ => simp [TypeRef.primitive?]

theorem fieldViolations_plain (type : TypeRef) (context : String) :
    bundle.fieldViolations type .plain context = bundle.typeViolations type context :=
  append_nil _

theorem fieldViolations_eq_nil {form} :
    bundle.fieldViolations type form context = [] ↔ bundle.Holds type form := by
  rw [fieldViolations, append_eq_nil_iff, typeViolations_eq_nil]
  have hform : bundle.formViolations form context = [] ↔
      form ≠ .array none true ∧ ∀ length fixed, form = .array (some length) fixed →
      bundle.Counts length := by
    rcases form with _ | ⟨_ | length, _ | _⟩ | _ <;>
      simp [formViolations, countViolations_eq_nil]
  rw [hform]
  exact ⟨fun h => ⟨h.1, h.2.1, h.2.2⟩, fun h => ⟨h.declared, h.measured, h.counted⟩⟩

/-! ### Discriminants -/

/-- How many type definitions may lie between a discriminant and what it
stands for. -/
def maxHops : Nat := 31

/-- What is wrong with the type of a discriminant, apart from the type
itself. -/
def keyViolations (bundle : Bundle) (type : TypeRef) (union : String) : List EmitError :=
  match bundle.opened maxHops type with
  | .named name =>
    match bundle.resolve? name with
    | some (.enum _) => []
    | some _ => [.invalidDiscriminant union type.text]
    | none => [.unknownType name union]
  | last =>
    if last.primitive?.any isIntegral then []
    else [.invalidDiscriminant union type.text]

theorem selects_named {name} :
    bundle.Selects (.named name) ↔ ∃ decl, bundle.resolve? name = some (.enum decl) := by
  simp [Selects]

theorem selects_of_not_named (h : ∀ name, type ≠ .named name) :
    bundle.Selects type ↔ type.primitive?.any isIntegral = true := by
  cases type with
  | named name => exact absurd rfl (h name)
  | _ => simp [Selects, TypeRef.primitive?, isIntegral]

/-- What is wrong with a discriminant is told by the type that it leads to. -/
theorem keyViolations_cases (type : TypeRef) (union : String) :
    (bundle.Selects (bundle.opened maxHops type) ∧ bundle.keyViolations type union = []) ∨
    (∃ name, bundle.opened maxHops type = .named name ∧ bundle.resolve? name = none ∧
      bundle.keyViolations type union = [.unknownType name union]) ∨
    (¬ bundle.Selects (bundle.opened maxHops type) ∧
      (∀ name, bundle.opened maxHops type = .named name → bundle.resolve? name ≠ none) ∧
      bundle.keyViolations type union = [.invalidDiscriminant union type.text]) := by
  unfold keyViolations
  generalize bundle.opened maxHops type = last
  split
  · next name =>
    split
    · next decl hdecl => exact .inl ⟨selects_named.mpr ⟨decl, hdecl⟩, rfl⟩
    · next decl hnot hdecl =>
      refine .inr (.inr ⟨?_, ?_, rfl⟩)
      · rw [selects_named]
        rintro ⟨enum, henum⟩
        cases hdecl.symm.trans henum
        exact hnot enum rfl
      · rintro _ ⟨⟩ hnone
        cases hdecl.symm.trans hnone
    · next hnone => exact .inr (.inl ⟨name, rfl, hnone, rfl⟩)
  · next hnot =>
    split
    · next hkey => exact .inl ⟨(selects_of_not_named hnot).mpr hkey, rfl⟩
    · next hkey =>
      rw [selects_of_not_named hnot]
      exact .inr (.inr ⟨hkey, fun name heq => absurd heq (hnot name), rfl⟩)

theorem keyViolations_eq_nil {union} :
    bundle.keyViolations type union = [] ↔
      ∃ hops ≤ 31, ∃ last, bundle.Aliases hops type last ∧ bundle.Selects last := by
  rw [exists_aliases_iff Selects.final, ← maxHops]
  rcases bundle.keyViolations_cases type union with ⟨hselects, hnil⟩ |
    ⟨name, hname, hnone, hlist⟩ | ⟨hnot, -, hlist⟩
  · exact iff_of_true hnil hselects
  · rw [hlist, hname, selects_named, hnone]
    simp
  · exact iff_of_false (by simp [hlist]) hnot

/-- What leads to a key has values. -/
theorem Aliases.declares {hops} {type last : TypeRef} (h : bundle.Aliases hops type last)
    (hlast : bundle.Selects last) : bundle.Declares type := by
  cases h with
  | hop h _ _ => exact .inr ⟨_, rfl, by rw [h]; rfl⟩
  | here =>
    rcases hlast with hmem | ⟨name, decl, rfl, hdecl⟩
    · refine .inl ?_
      simp only [mem_cons, not_mem_nil, or_false] at hmem
      rcases hmem with rfl | rfl | rfl | rfl | rfl <;> rfl
    · exact .inr ⟨name, rfl, by rw [hdecl]; rfl⟩

end Bundle

/-! ### Enumerations -/

/-- An enumeration that can be emitted: its members can be evaluated, unless
they are literals, and those that can be are distinct and fit into 32 bits. -/
structure EnumDecl.WellFormed (bundle : Bundle) (decl : EnumDecl) : Prop where
  evaluated : ∀ member ∈ decl.members, ∀ name, member.value = .name name →
    (bundle.evaluate member.value).isSome
  inRange : ∀ member ∈ decl.members, ∀ number, bundle.evaluate member.value = some number →
    -0x80000000 ≤ number ∧ number < 0x80000000
  distinct : (decl.members.filterMap fun member => bundle.evaluate member.value).Nodup

namespace Bundle

/-- What is wrong with the name that gives a member. -/
def memberNameViolations (bundle : Bundle) (enum : String) (member : EnumMember) :
    List EmitError :=
  match member.value, bundle.evaluate member.value with
  | .name unknown, none => [.unknownValue unknown s!"{enum}.{member.name}"]
  | _, _ => []

/-- What is wrong with the number of a member, given the members before it. -/
def memberNumberViolations (bundle : Bundle) (enum : String) (before : List EnumMember)
    (member : EnumMember) : List EmitError :=
  match bundle.evaluate member.value with
  | some number =>
    (if number < -0x80000000 ∨ 0x80000000 ≤ number then
      [.outOfRange s!"{enum}.{member.name}" number "i32"] else []) ++
      (if before.any fun earlier => bundle.evaluate earlier.value == some number then
        [.duplicateLabel enum member.value.text] else [])
  | none => []

/-- What is wrong with a member, given those before it. -/
def memberViolations (bundle : Bundle) (enum : String) (before : List EnumMember)
    (member : EnumMember) : List EmitError :=
  bundle.memberNameViolations enum member ++ bundle.memberNumberViolations enum before member

/-- What is wrong with an enumeration. -/
def enumViolations (bundle : Bundle) (decl : EnumDecl) : List EmitError :=
  eachAfter (bundle.memberViolations decl.name) [] decl.members

variable {bundle : Bundle}

theorem memberViolations_eq_nil {enum} (before : List EnumMember) (member : EnumMember) :
    bundle.memberViolations enum before member = [] ↔
      ((∀ name, member.value = .name name → (bundle.evaluate member.value).isSome) ∧
        ∀ number, bundle.evaluate member.value = some number →
        -0x80000000 ≤ number ∧ number < 0x80000000) ∧
      ∀ earlier ∈ before, ∀ number, bundle.evaluate earlier.value = some number →
        ∀ number', bundle.evaluate member.value = some number' → number ≠ number' := by
  unfold memberViolations memberNameViolations memberNumberViolations
  cases hvalue : bundle.evaluate member.value with
  | none => cases member.value <;> simp
  | some number =>
    simp only [reduceCtorEq, imp_false, not_false_eq_true, nil_append, append_eq_nil_iff,
      ite_eq_right_iff, cons_ne_nil, any_eq_true, beq_iff_eq, not_exists, not_and,
      Option.isSome_some, implies_true, true_and, Option.some.injEq, forall_eq', not_or,
      Int.not_lt, Int.not_le]
    refine and_congr_right fun _ => forall₂_congr fun earlier _ => ?_
    constructor
    · rintro hne _ hsome rfl
      exact hne hsome
    · intro hne hsome
      exact hne number hsome rfl

theorem enumViolations_eq_nil {decl} :
    bundle.enumViolations decl = [] ↔ decl.WellFormed bundle := by
  rw [enumViolations, eachAfter_eq_nil_iff memberViolations_eq_nil]
  simp only [not_mem_nil, false_implies, implies_true, and_true]
  rw [← pairwise_filterMap]
  constructor
  · rintro ⟨hmembers, hdistinct⟩
    exact ⟨fun member hmember => (hmembers member hmember).1,
      fun member hmember => (hmembers member hmember).2, hdistinct⟩
  · rintro ⟨hevaluated, hrange, hdistinct⟩
    exact ⟨fun member hmember => ⟨hevaluated member hmember, hrange member hmember⟩,
      hdistinct⟩

end Bundle

/-! ### Unions -/

/-- The fields of the cases of a union. -/
def UnionDecl.fields (decl : UnionDecl) : List Field :=
  decl.cases.filterMap field?

/-- The number of a label, if it can be evaluated. -/
def Bundle.labelNumber? (bundle : Bundle) : Label → Option Int
  | .value value => bundle.evaluate value
  | .otherwise => none

/-- A union that can be emitted: its discriminant leads to what can select
an arm, its labels are known and distinct, and its fields can be emitted and
are told apart by their names. -/
structure UnionDecl.WellFormed (bundle : Bundle) (decl : UnionDecl) : Prop where
  discriminant : ∃ hops ≤ 31, ∃ last,
    bundle.Aliases hops decl.discriminant.type last ∧ bundle.Selects last
  known : ∀ case ∈ decl.cases, ∀ value, case.label = .value value → bundle.Knows value
  distinct : (decl.cases.filterMap fun case => bundle.labelNumber? case.label).Nodup
  default : (decl.cases.map label).count .otherwise ≤ 1
  fields : ∀ field ∈ decl.fields, bundle.Holds field.type field.form
  apart : ∀ field ∈ decl.fields, field.name ≠ decl.discriminant.name
  agree : ∀ field ∈ decl.fields, ∀ other ∈ decl.fields, field.name = other.name →
    field = other

namespace Bundle

section Cases

variable (bundle : Bundle) (decl : UnionDecl)

/-- What is wrong with the field of a case, given those before it. -/
def armViolations (before : List Field) (field : Field) : List EmitError :=
  (if field.name = decl.discriminant.name ∨ before.any fun earlier =>
    earlier.name = field.name ∧ earlier ≠ field then
    [.conflictingArm decl.name field.name] else []) ++
    bundle.fieldViolations field.type field.form s!"{decl.name}.{field.name}"

/-- What is wrong with a label, given those before it. -/
def labelViolations (before : List Label) (label : Label) : List EmitError :=
  match label with
  | .otherwise =>
    if before.contains .otherwise then [.duplicateLabel decl.name "default"] else []
  | .value value =>
    bundle.nameViolations value decl.name ++
      match bundle.evaluate value with
      | some number =>
        if before.any fun earlier => bundle.labelNumber? earlier == some number then
          [.duplicateLabel decl.name value.text] else []
      | none => []

/-- What is wrong with a case, given those before it. -/
def caseViolations (before : List Case) (case : Case) : List EmitError :=
  (match case.field? with
    | some field => bundle.armViolations decl (before.filterMap field?) field
    | none => []) ++
    bundle.labelViolations decl (before.map label) case.label

/-- What is wrong with a union. -/
def unionViolations : List EmitError :=
  bundle.typeViolations decl.discriminant.type s!"{decl.name}.{decl.discriminant.name}" ++
    bundle.keyViolations decl.discriminant.type decl.name ++
    eachAfter (bundle.caseViolations decl) [] decl.cases

end Cases

variable {bundle : Bundle} {decl : UnionDecl}

theorem armViolations_eq_nil {before field} :
    bundle.armViolations decl before field = [] ↔
      (field.name ≠ decl.discriminant.name ∧ bundle.Holds field.type field.form) ∧
      ∀ earlier ∈ before, earlier.name = field.name → earlier = field := by
  rw [armViolations, append_eq_nil_iff, fieldViolations_eq_nil]
  simp only [ite_eq_right_iff, cons_ne_nil, imp_false, any_eq_true, decide_eq_true_eq, not_or,
    not_exists, not_and, not_not, ne_eq]
  exact and_right_comm

theorem labelViolations_eq_nil {before label} :
    bundle.labelViolations decl before label = [] ↔
      (∀ value, label = .value value → bundle.Knows value) ∧
      ∀ earlier ∈ before, ¬ (earlier = .otherwise ∧ label = .otherwise) ∧
        ∀ number, bundle.labelNumber? earlier = some number →
          ∀ number', bundle.labelNumber? label = some number' → number ≠ number' := by
  cases label with
  | otherwise =>
    simp only [labelViolations, contains_iff_mem, ite_eq_right_iff, cons_ne_nil, imp_false]
    constructor
    · intro hnot
      refine ⟨by simp, fun earlier hearlier => ⟨?_, by simp [labelNumber?]⟩⟩
      rintro ⟨rfl, -⟩
      exact hnot hearlier
    · intro h hmem
      exact (h.2 _ hmem).1 ⟨rfl, trivial⟩
  | value value =>
    have hnumber : bundle.labelNumber? (.value value) = bundle.evaluate value := rfl
    rw [labelViolations, append_eq_nil_iff, nameViolations_eq_nil, hnumber]
    refine and_congr (by simp) ?_
    cases bundle.evaluate value with
    | none => simp
    | some number =>
      simp only [ite_eq_right_iff, cons_ne_nil, imp_false, any_eq_true, beq_iff_eq,
        not_exists, not_and, reduceCtorEq, not_false_eq_true, implies_true, true_and,
        Option.some.injEq, forall_eq']
      refine forall₂_congr fun earlier _ => ?_
      constructor
      · rintro hne _ hsome rfl
        exact hne hsome
      · intro hne hsome
        exact hne number hsome rfl

/-- A case is sound by itself. -/
structure SoundCase (bundle : Bundle) (decl : UnionDecl) (case : Case) : Prop where
  field : ∀ field, case.field? = some field →
    field.name ≠ decl.discriminant.name ∧ bundle.Holds field.type field.form
  label : ∀ value, case.label = .value value → bundle.Knows value

/-- Two cases can stand in one union. -/
structure ApartCases (bundle : Bundle) (earlier later : Case) : Prop where
  fields : ∀ field, earlier.field? = some field → ∀ other, later.field? = some other →
    field.name = other.name → field = other
  defaults : ¬ (earlier.label = .otherwise ∧ later.label = .otherwise)
  numbers : ∀ number, bundle.labelNumber? earlier.label = some number →
    ∀ number', bundle.labelNumber? later.label = some number' → number ≠ number'

theorem caseViolations_eq_nil (before : List Case) (case : Case) :
    bundle.caseViolations decl before case = [] ↔
      bundle.SoundCase decl case ∧ ∀ earlier ∈ before, bundle.ApartCases earlier case := by
  rw [caseViolations, append_eq_nil_iff, labelViolations_eq_nil, forall_mem_map]
  have hfield : (match case.field? with
      | some field => bundle.armViolations decl (before.filterMap field?) field
      | none => []) = [] ↔
      (∀ field, case.field? = some field →
        field.name ≠ decl.discriminant.name ∧ bundle.Holds field.type field.form) ∧
      ∀ earlier ∈ before, ∀ field, earlier.field? = some field →
      ∀ other, case.field? = some other → field.name = other.name → field = other := by
    cases case.field? with
    | none => simp
    | some field =>
      rw [armViolations_eq_nil]
      simp only [mem_filterMap, Option.some.injEq, forall_eq']
      refine and_congr_right fun _ =>
        ⟨fun h earlier hearlier other hother => h other ⟨earlier, hearlier, hother⟩, ?_⟩
      rintro h other ⟨earlier, hearlier, hother⟩
      exact h earlier hearlier other hother
  rw [hfield]
  constructor
  · rintro ⟨⟨hsound, hfields⟩, hlabel, hlabels⟩
    exact ⟨⟨hsound, hlabel⟩, fun earlier hearlier =>
      ⟨hfields earlier hearlier, (hlabels earlier hearlier).1, (hlabels earlier hearlier).2⟩⟩
  · rintro ⟨⟨hsound, hlabel⟩, hapart⟩
    exact ⟨⟨hsound, fun earlier hearlier => (hapart earlier hearlier).fields⟩, hlabel,
      fun earlier hearlier =>
        ⟨(hapart earlier hearlier).defaults, (hapart earlier hearlier).numbers⟩⟩

/-- At most one label is the default if no two are. -/
theorem count_otherwise_le_one {cases : List Case} :
    (cases.map label).count .otherwise ≤ 1 ↔
      cases.Pairwise fun earlier later =>
        ¬ (earlier.label = .otherwise ∧ later.label = .otherwise) := by
  induction cases with
  | nil => simp
  | cons case cases ih =>
    rw [map_cons, count_cons, pairwise_cons, ← ih]
    by_cases hlabel : case.label = .otherwise
    · have hnone : (cases.map label).count .otherwise = 0 ↔
          ∀ later ∈ cases, ¬ (case.label = .otherwise ∧ later.label = .otherwise) := by
        simp [count_eq_zero, hlabel]
      rw [if_pos (by simp [hlabel]), ← hnone]
      omega
    · simp [hlabel]

/-- Fields agree if those of any two cases do. -/
theorem forall_fields_iff_pairwise {cases : List Case} :
    (∀ field ∈ cases.filterMap field?, ∀ other ∈ cases.filterMap field?,
      field.name = other.name → field = other) ↔
      cases.Pairwise fun earlier later => ∀ field, earlier.field? = some field →
        ∀ other, later.field? = some other → field.name = other.name → field = other := by
  rw [← pairwise_filterMap]
  constructor
  · exact pairwise_of_forall_mem_list
  · intro h
    have hsymm : Std.Symm fun field other : Field =>
      field.name = other.name → field = other :=
      ⟨fun _ _ hsame hname => (hsame hname.symm).symm⟩
    exact fun field hfield other hother => h.forall_of_forall (fun _ _ _ => rfl) hfield hother

theorem pairwise_apartCases {cases : List Case} :
    cases.Pairwise bundle.ApartCases ↔
      (∀ field ∈ cases.filterMap field?, ∀ other ∈ cases.filterMap field?,
        field.name = other.name → field = other) ∧
      (cases.map label).count .otherwise ≤ 1 ∧
      (cases.filterMap fun case => bundle.labelNumber? case.label).Nodup := by
  rw [forall_fields_iff_pairwise, count_otherwise_le_one, List.Nodup, pairwise_filterMap]
  constructor
  · intro h
    exact ⟨h.imp ApartCases.fields, h.imp ApartCases.defaults, h.imp ApartCases.numbers⟩
  · rintro ⟨hfields, hdefaults, hnumbers⟩
    exact (hfields.and (hdefaults.and hnumbers)).imp fun h => ⟨h.1, h.2.1, h.2.2⟩

theorem unionViolations_eq_nil :
    bundle.unionViolations decl = [] ↔ decl.WellFormed bundle := by
  rw [unionViolations, append_eq_nil_iff, append_eq_nil_iff, typeViolations_eq_nil,
    keyViolations_eq_nil, eachAfter_eq_nil_iff caseViolations_eq_nil, pairwise_apartCases]
  constructor
  · rintro ⟨⟨-, hleads⟩, hcases, hagree, hdefault, hdistinct⟩
    have hsound : ∀ field ∈ decl.fields,
        field.name ≠ decl.discriminant.name ∧ bundle.Holds field.type field.form := by
      intro field hfield
      obtain ⟨case, hcase, hsome⟩ := mem_filterMap.mp hfield
      exact (hcases case hcase).1.field field hsome
    exact {
      discriminant := hleads
      known := fun case hcase => (hcases case hcase).1.label
      distinct := hdistinct
      default := hdefault
      fields := fun field hfield => (hsound field hfield).2
      apart := fun field hfield => (hsound field hfield).1
      agree := hagree }
  · intro h
    obtain ⟨hops, hle, last, hlast, hselects⟩ := h.discriminant
    refine ⟨⟨hlast.declares hselects, hops, hle, last, hlast, hselects⟩,
      fun case hcase => ⟨⟨fun field hsome => ?_, h.known case hcase⟩, ?_⟩,
      h.agree, h.default, h.distinct⟩
    · have hfield : field ∈ decl.fields := mem_filterMap.mpr ⟨case, hcase, hsome⟩
      exact ⟨h.apart field hfield, h.fields field hfield⟩
    · exact fun _ hnone => absurd hnone not_mem_nil

end Bundle

/-! ### Programs -/

/-- A procedure that can be emitted: its number is one, and its argument and
result are void or have values. -/
structure ProcDecl.WellFormed (bundle : Bundle) (proc : ProcDecl) : Prop where
  id : bundle.Counts proc.id
  arg : proc.arg = .void ∨ bundle.Declares proc.arg
  res : proc.res = .void ∨ bundle.Declares proc.res

/-- A program that can be emitted, with its versions and their procedures. -/
structure ProgramDecl.WellFormed (bundle : Bundle) (decl : ProgramDecl) : Prop where
  number : bundle.Counts decl.number
  versions : ∀ version ∈ decl.versions, bundle.Counts version.number
  procs : ∀ version ∈ decl.versions, ∀ proc ∈ version.procs, proc.WellFormed bundle

/-- A bundle that can be emitted. -/
structure Bundle.WellFormed (bundle : Bundle) : Prop where
  consts : ∀ decl ∈ bundle.consts, bundle.Knows decl.value
  enums : ∀ decl ∈ bundle.enums, decl.WellFormed bundle
  structs : ∀ decl ∈ bundle.structs, ∀ field ∈ decl.fields, bundle.Holds field.type field.form
  unions : ∀ decl ∈ bundle.unions, decl.WellFormed bundle
  typedefs : ∀ field ∈ bundle.typedefs, bundle.Holds field.type field.form
  programs : ∀ decl ∈ bundle.programs, decl.WellFormed bundle

namespace Bundle

section Programs

variable (bundle : Bundle)

/-- What is wrong with the type of an argument or result. -/
def signatureViolations (type : TypeRef) (context : String) : List EmitError :=
  match type with
  | .void => []
  | type => bundle.typeViolations type context

/-- What is wrong with a procedure of a service. -/
def procViolations (service : String) (proc : ProcDecl) : List EmitError :=
  bundle.countViolations proc.id s!"{service}.{proc.name}" ++
    bundle.signatureViolations proc.arg s!"{service}.{proc.name}" ++
    bundle.signatureViolations proc.res s!"{service}.{proc.name}"

/-- What is wrong with a version of a program. -/
def versionViolations (program : String) (version : VersionDecl) : List EmitError :=
  bundle.countViolations version.number s!"{program}.{version.name}" ++
    version.procs.flatMap (bundle.procViolations s!"{program}.{version.name}")

/-- What is wrong with a program. -/
def programViolations (decl : ProgramDecl) : List EmitError :=
  bundle.countViolations decl.number decl.name ++
    decl.versions.flatMap (bundle.versionViolations decl.name)

/-- What is wrong with a structure. -/
def structViolations (decl : StructDecl) : List EmitError :=
  decl.fields.flatMap fun field =>
    bundle.fieldViolations field.type field.form s!"{decl.name}.{field.name}"

/-- All that is wrong with a bundle, in the order in which it is emitted. -/
def violations : List EmitError :=
  bundle.consts.flatMap (fun decl => bundle.nameViolations decl.value decl.name) ++
    bundle.enums.flatMap bundle.enumViolations ++
    bundle.structs.flatMap bundle.structViolations ++
    bundle.unions.flatMap bundle.unionViolations ++
    bundle.typedefs.flatMap (fun field =>
      bundle.fieldViolations field.type field.form field.name) ++
    bundle.programs.flatMap bundle.programViolations

end Programs

variable {bundle : Bundle}

theorem signatureViolations_eq_nil {type : TypeRef} {context} :
    bundle.signatureViolations type context = [] ↔ type = .void ∨ bundle.Declares type := by
  unfold signatureViolations
  cases type with
  | void => simp
  | _ => simp [typeViolations_eq_nil]

theorem procViolations_eq_nil {service proc} :
    bundle.procViolations service proc = [] ↔ proc.WellFormed bundle := by
  rw [procViolations, append_eq_nil_iff, append_eq_nil_iff, countViolations_eq_nil,
    signatureViolations_eq_nil, signatureViolations_eq_nil]
  exact ⟨fun h => ⟨h.1.1, h.1.2, h.2⟩, fun h => ⟨⟨h.id, h.arg⟩, h.res⟩⟩

theorem programViolations_eq_nil {decl} :
    bundle.programViolations decl = [] ↔ decl.WellFormed bundle := by
  simp only [programViolations, versionViolations, append_eq_nil_iff, flatMap_eq_nil_iff,
    countViolations_eq_nil, procViolations_eq_nil]
  constructor
  · rintro ⟨hnumber, hversions⟩
    exact ⟨hnumber, fun version hversion => (hversions version hversion).1,
      fun version hversion => (hversions version hversion).2⟩
  · rintro ⟨hnumber, hversions, hprocs⟩
    exact ⟨hnumber,
      fun version hversion => ⟨hversions version hversion, hprocs version hversion⟩⟩

/-- **Nothing is wrong with a bundle** if and only if it is well-formed. -/
theorem violations_eq_nil_iff : bundle.violations = [] ↔ bundle.WellFormed := by
  simp only [violations, structViolations, append_eq_nil_iff,
    flatMap_eq_nil_iff, nameViolations_eq_nil, enumViolations_eq_nil, fieldViolations_eq_nil,
    unionViolations_eq_nil, programViolations_eq_nil]
  constructor
  · rintro ⟨⟨⟨⟨⟨hconsts, henums⟩, hstructs⟩, hunions⟩, htypedefs⟩, hprograms⟩
    exact ⟨hconsts, henums, hstructs, hunions, htypedefs, hprograms⟩
  · rintro ⟨hconsts, henums, hstructs, hunions, htypedefs, hprograms⟩
    exact ⟨⟨⟨⟨⟨hconsts, henums⟩, hstructs⟩, hunions⟩, htypedefs⟩, hprograms⟩

end Bundle
end Xdr
