import Xdr.Proofs.Emit.Cases
import Xdr.Proofs.Emit.Delivery
import Xdr.Proofs.Emit.Violations

/-!
# The first violation is reported

Emission checks a bundle while it is on its way through the declarations.
No check is left out, and none is made before its turn: what it fails with
is the first of all that is wrong with the bundle.

## Main Statements

* `Emit.reports_enumPlan`, `Emit.reports_structPlan`,
  `Emit.reports_unionPlan`, `Emit.reports_aliasPlan`,
  `Emit.reports_versionPlan` — the checks of declarations
* `Emit.stops_moduleStrokes` — the emission of a bundle
* `Emit.passes_of_render` — emitted code comes from a bundle that passes
* `Emit.succeeds_iff_wellFormed` — when a bundle can be emitted, and what is
  reported otherwise
-/

namespace Xdr.Emit

open List Reports Xdr.Bundle

variable {bundle : Bundle}

/-! ### Integers and types -/

/-- A value is written unless its name is unknown. -/
theorem reports_valueText (value : IntExpr) (cast context : String) :
    Reports (bundle.valueText value cast context) (bundle.nameViolations value context) := by
  unfold valueText nameViolations
  cases value with
  | literal text => exact reports_ok _
  | name name =>
    dsimp only
    cases bundle.expressions.find? name with
    | none => exact reports_error _ _
    | some expression => exact reports_ok _

/-- A count must fit into an unsigned word too. -/
theorem reports_unsignedText (value : IntExpr) (context : String) :
    Reports (bundle.unsignedText value context) (bundle.countViolations value context) := by
  unfold unsignedText countViolations rangeViolations
  cases bundle.evaluate value with
  | none => exact reports_valueText value "u32" context
  | some number =>
    dsimp only
    by_cases hnegative : number < 0
    · rw [if_pos hnegative, if_pos hnegative]
      exact reports_error _ _
    · rw [if_neg hnegative, if_neg hnegative]
      by_cases hgreat : maxUnsigned < number
      · rw [if_pos hgreat, if_pos hgreat]
        exact reports_error _ _
      · rw [if_neg hgreat, if_neg hgreat]
        exact reports_valueText value "u32" context

/-- The shape of a type is found if the type is declared. -/
theorem reports_shape (type : TypeRef) (context : String) :
    Reports (bundle.shape type context) (bundle.typeViolations type context) := by
  unfold shape typeViolations
  cases type with
  | named name =>
    simp only [TypeRef.primitive?]
    split
    · exact reports_ok _
    · exact reports_error _ _
  | void => exact reports_error _ _
  | _ => exact reports_ok _

theorem reports_arrayLength (length : Option IntExpr) (fixed : Bool) (context : String) :
    Reports (bundle.arrayLength length fixed context)
      (bundle.formViolations (.array length fixed) context) := by
  unfold arrayLength formViolations
  cases length with
  | none =>
    cases fixed with
    | true => exact reports_error _ _
    | false => exact reports_ok _
  | some value =>
    cases fixed with
    | true => exact (reports_unsignedText value context).map _
    | false => exact (reports_unsignedText value context).map _

/-- The type of a field is looked at before its length. -/
theorem reports_layout (type : TypeRef) (form : Form) (context : String) :
    Reports (bundle.layout type form context) (bundle.fieldViolations type form context) := by
  unfold layout fieldViolations
  refine (reports_shape type context).bind fun shape _ => ?_
  dsimp only
  split
  · exact reports_ok _
  · exact reports_ok _
  · exact reports_ok _
  · exact (reports_arrayLength _ _ context).bind_ok fun _ => reports_ok _
  · exact (reports_arrayLength _ _ context).bind_ok fun _ => reports_ok _

theorem reports_signatureText (type : TypeRef) (context : String) :
    Reports (bundle.signatureText type context)
      (bundle.signatureViolations type context) := by
  have hlayout : Reports ((bundle.layout type .plain context).map Layout.host)
      (bundle.typeViolations type context) := by
    rw [← fieldViolations_plain]
    exact (reports_layout type .plain context).map Layout.host
  cases type with
  | void => exact reports_ok _
  | _ => exact hlayout

/-! ### Discriminants -/

/-- A discriminant needs a type that can select. -/
theorem reports_keyText (type : TypeRef) (place union : String) :
    Reports (bundle.keyText type place union) (bundle.keyViolations type union) := by
  -- The limit counts types that are looked at, and not the steps between them.
  have hlimit : maxAliases = maxHops + 1 := rfl
  unfold keyText
  rw [hlimit]
  rcases bundle.keyViolations_cases type union with ⟨hselects, hlist⟩ |
    ⟨name, hname, hnone, hlist⟩ | ⟨hnot, hdeclared, hlist⟩ <;> rw [hlist]
  · obtain ⟨hops, hle, hmet⟩ := (exists_aliases_iff Selects.final).mpr hselects
    rw [keyDepth_eq_ok.mpr ⟨hle, hmet⟩]
    exact reports_ok _
  · obtain ⟨hops, hle, hlast⟩ := bundle.aliases_opened maxHops type
    rw [keyDepth_eq_unknown.mpr ⟨hops, hle, hname ▸ hlast, hnone⟩]
    exact reports_error _ _
  · rw [keyDepth_eq_invalid.mpr ?_]
    · exact reports_error _ _
    · rintro ⟨hops, hle, last, hlast, hselects | ⟨name, rfl, hnone⟩⟩
      · exact hnot ((exists_aliases_iff Selects.final).mp ⟨hops, hle, last, hlast, hselects⟩)
      · exact hdeclared name (hlast.opened_eq (final_of_resolve?_eq_none hnone) hle) hnone

/-! ### Numbers so far -/

section Numbers

variable {α : Type}

/-- The numbers `seen` are those that the items have. -/
def NumbersOf (number? : α → Option Int) (items : List α) (seen : List Int) : Prop :=
  ∀ number, number ∈ seen ↔ ∃ item ∈ items, number? item = some number

variable {number? : α → Option Int} {items : List α} {seen : List Int}

theorem numbersOf_nil : NumbersOf number? [] [] := by
  intro number
  simp

/-- The numbers seen are those of the items before. -/
theorem NumbersOf.contains (h : NumbersOf number? items seen) (number : Int) :
    seen.contains number = items.any fun item => number? item == some number := by
  rw [Bool.eq_iff_iff, contains_iff_mem, h, any_eq_true]
  simp only [beq_iff_eq]

theorem NumbersOf.append (h : NumbersOf number? items seen) (item : α) :
    NumbersOf number? (items ++ [item]) ((number? item).toList ++ seen) := by
  intro number
  simp only [mem_append, mem_singleton, or_and_right, exists_or, exists_eq_left, ← h number,
    Option.mem_toList]
  exact or_comm

end Numbers

/-! ### Enumerations -/

theorem reports_memberText (enum : String) (member : EnumMember) :
    Reports (memberText bundle enum member) (bundle.memberNameViolations enum member) := by
  unfold memberText memberNameViolations
  cases member.value with
  | literal text => exact reports_ok _
  | name name =>
    cases bundle.evaluate (.name name) with
    | none => exact reports_error _ _
    | some number => exact reports_ok _

section Members

variable {enum : String} {before : List EnumMember} {seen : List Int}

/-- A member may repeat no number of an earlier one. -/
theorem reports_checkMember
    (hseen : NumbersOf (fun earlier => bundle.evaluate earlier.value) before seen)
    (member : EnumMember) :
    Reports (checkMember bundle enum member seen)
      (bundle.memberNumberViolations enum before member) := by
  unfold checkMember memberNumberViolations
  cases bundle.evaluate member.value with
  | none => exact reports_ok _
  | some number =>
    dsimp only
    by_cases hrange : number < -0x80000000 ∨ 0x80000000 ≤ number
    · rw [if_pos hrange, if_pos hrange]
      exact reports_error _ _
    · rw [if_neg hrange, if_neg hrange, nil_append, hseen.contains]
      split
      · exact reports_error _ _
      · exact reports_ok _

theorem checkMember_eq_ok {member next} (h : checkMember bundle enum member seen = .ok next) :
    next = (bundle.evaluate member.value).toList ++ seen := by
  unfold checkMember at h
  cases hvalue : bundle.evaluate member.value with
  | none =>
    rw [hvalue] at h
    exact (Except.ok.inj h).symm
  | some number =>
    rw [hvalue] at h
    dsimp only at h
    split at h
    · cases h
    · split at h
      · cases h
      · exact (Except.ok.inj h).symm

/-- The members, each checked against those before it. -/
theorem reports_memberTexts {members}
    (hseen : NumbersOf (fun earlier => bundle.evaluate earlier.value) before seen) :
    Reports (memberTexts bundle enum seen members)
      (eachAfter (bundle.memberViolations enum) before members) := by
  induction members generalizing before seen with
  | nil => exact reports_ok _
  | cons member members ih =>
    -- Each member is looked at twice before the next one: as a name, and as a number among
    -- those before it.
    rw [memberTexts, eachAfter, memberViolations, append_assoc]
    refine (reports_memberText enum member).bind fun text _ => ?_
    refine (reports_checkMember hseen member).bind fun next hnext => ?_
    rw [checkMember_eq_ok hnext]
    exact (ih (hseen.append member)).bind_ok fun _ => reports_ok _

end Members

/-- **Enumerations.** -/
theorem reports_enumPlan (decl : EnumDecl) :
    Reports (enumPlan bundle decl) (bundle.enumViolations decl) :=
  (reports_memberTexts numbersOf_nil).map _

/-! ### Structures and type definitions -/

/-- **Structures.** -/
theorem reports_structPlan (decl : StructDecl) :
    Reports (structPlan bundle decl) (bundle.structViolations decl) := by
  refine (mapM fun field _ => ?_).bind_ok fun _ => reports_ok _
  exact (reports_layout _ _ _).bind_ok fun _ => reports_ok _

/-- **Type definitions.** -/
theorem reports_aliasPlan (decl : Field) :
    Reports (aliasPlan bundle decl) (bundle.fieldViolations decl.type decl.form decl.name) :=
  (reports_layout _ _ _).map _

/-! ### Unions -/

section Unions

variable {decl : UnionDecl} {state : CaseState} {labels : List Label}

/-- What the state holds of the labels so far. -/
structure LabelsOf (bundle : Bundle) (labels : List Label) (state : CaseState) : Prop where
  fallback : state.fallback.isSome = labels.contains .otherwise
  seen : NumbersOf bundle.labelNumber? labels state.seen

theorem LabelsOf.withArms (h : LabelsOf bundle labels state) (arms : List Arm) :
    LabelsOf bundle labels { state with arms := arms } :=
  ⟨h.fallback, h.seen⟩

/-- The state tells of the cases so far what the next one is judged by. -/
structure Tells (bundle : Bundle) (before : List Case) (state : CaseState) : Prop where
  arms : ArmsOf bundle (before.filterMap Case.field?) state.arms
  labels : LabelsOf bundle (before.map Case.label) state

/-- Nothing is wrong with an arm that is given again: it was checked the
first time. -/
theorem ArmsOf.armViolations_eq_nil {fields arms} (harms : ArmsOf bundle fields arms) {arm}
    (harm : arm ∈ arms) (hname : arm.field.name ≠ decl.discriminant.name) :
    bundle.armViolations decl fields arm.field = [] := by
  have hholds : bundle.Holds arm.field.type arm.field.form := by
    obtain ⟨context, hlayout⟩ := harms.layouts arm harm
    have hreports := @reports_layout bundle arm.field.type arm.field.form context
    rw [hlayout] at hreports
    exact fieldViolations_eq_nil.mp hreports
  refine Bundle.armViolations_eq_nil.mpr ⟨⟨hname, hholds⟩, fun earlier hearlier hsame => ?_⟩
  obtain ⟨other, hother, rfl⟩ := mem_map.mp ((harms.mem_iff earlier).mpr hearlier)
  exact congrArg Arm.field (inj_on_of_nodup_map harms.distinct hother harm hsame)

/-- An arm, checked against the arms before it. -/
theorem reports_addArm {fields arms} (harms : ArmsOf bundle fields arms) (field : Field) :
    Reports (addArm bundle decl arms field) (bundle.armViolations decl fields field) := by
  unfold addArm
  split
  · next hname =>
    rw [armViolations, if_pos (.inl hname)]
    exact reports_error _ _
  · next hname =>
    split
    · next arm hfound =>
      have harm := mem_of_find?_eq_some hfound
      split
      · next hfield =>
        subst hfield
        exact harms.armViolations_eq_nil harm hname
      · next hfield =>
        have hbefore : arm.field ∈ fields :=
          (harms.mem_iff arm.field).mp (mem_map_of_mem harm)
        have hsame := find?_some hfound
        have hconflict : fields.any fun earlier =>
          earlier.name = field.name ∧ earlier ≠ field :=
          any_eq_true.mpr ⟨arm.field, hbefore, decide_eq_true ⟨beq_iff_eq.mp hsame, hfield⟩⟩
        rw [armViolations, if_pos (.inr hconflict)]
        exact reports_error _ _
    · next hnone =>
      -- The arms have the names of all fields so far, so a name without an arm is a new one.
      rw [armViolations, if_neg]
      · exact (reports_layout _ _ _).map _
      · rintro (hkey | hother)
        · exact hname hkey
        · obtain ⟨earlier, hearlier, hdiffers⟩ := any_eq_true.mp hother
          obtain ⟨arm, harm, rfl⟩ := mem_map.mp ((harms.mem_iff earlier).mpr hearlier)
          exact find?_eq_none.mp hnone arm harm
            (beq_iff_eq.mpr (of_decide_eq_true hdiffers).1)

/-- A label, checked against the labels before it. -/
theorem reports_addLabel (hlabels : LabelsOf bundle labels state) (label : Label)
    (target : Option String) :
    Reports (addLabel bundle decl state label target)
      (bundle.labelViolations decl labels label) := by
  unfold addLabel labelViolations
  cases label with
  | otherwise =>
    dsimp only
    rw [← hlabels.fallback]
    cases state.fallback with
    | none => exact reports_ok _
    | some other => exact reports_error _ _
  | value value =>
    refine (reports_valueText value "i64" decl.name).bind fun condition _ => ?_
    cases bundle.evaluate value with
    | none => exact reports_ok _
    | some number =>
      dsimp only
      rw [hlabels.seen.contains]
      split
      · exact reports_error _ _
      · exact reports_ok _

theorem LabelsOf.addLabel {next} (hlabels : LabelsOf bundle labels state) {label target}
    (h : Emit.addLabel bundle decl state label target = .ok next) :
    LabelsOf bundle (labels ++ [label]) next := by
  have hseen := hlabels.seen.append label
  cases label with
  | otherwise =>
    obtain ⟨-, rfl⟩ := addLabel_otherwise h
    exact ⟨by simp, hseen⟩
  | value value =>
    obtain ⟨condition, -, rfl⟩ := addLabel_value h
    exact ⟨by simp [hlabels.fallback], hseen⟩

theorem Tells.addCase {before next} (h : Tells bundle before state) {case}
    (hnext : Emit.addCase bundle decl state case = .ok next) :
    Tells bundle (before ++ [case]) next := by
  obtain ⟨arms, hlabel, -⟩ := addCase_eq_ok hnext
  refine ⟨h.arms.addCase hnext, ?_⟩
  rw [map_append]
  exact (h.labels.withArms arms).addLabel hlabel

/-- A case: its arm first, then its label. -/
theorem reports_addCase {before} (h : Tells bundle before state) (case : Case) :
    Reports (addCase bundle decl state case) (bundle.caseViolations decl before case) := by
  unfold addCase caseViolations
  cases case.field? with
  | none => exact reports_addLabel h.labels case.label none
  | some field =>
    refine (reports_addArm h.arms field).bind fun arms _ => ?_
    exact reports_addLabel (h.labels.withArms arms) case.label (some field.name)

/-- **Unions.** -/
theorem reports_unionPlan (decl : UnionDecl) :
    Reports (unionPlan bundle decl) (bundle.unionViolations decl) := by
  have hstart : Tells bundle [] ⟨[], [], none, []⟩ :=
    ⟨armsOf_nil bundle, rfl, numbersOf_nil⟩
  unfold unionPlan unionViolations
  rw [← fieldViolations_plain, append_assoc]
  refine (reports_layout _ _ _).bind fun layout _ => ?_
  refine (reports_keyText _ _ _).bind fun key _ => ?_
  refine (foldlM ?_ ?_ hstart).bind_ok fun _ => reports_ok _
  · exact fun h => reports_addCase h _
  · exact fun h hnext => h.addCase hnext

end Unions

/-! ### Programs -/

theorem reports_procPlan (service : String) (decl : ProcDecl) :
    Reports (procPlan bundle service decl) (bundle.procViolations service decl) := by
  unfold procPlan procViolations
  rw [append_assoc]
  refine (reports_unsignedText _ _).bind fun id _ => ?_
  refine (reports_signatureText _ _).bind fun arg _ => ?_
  exact (reports_signatureText _ _).bind_ok fun res => reports_ok _

theorem reports_versionPlan (program : String) (decl : VersionDecl) :
    Reports (versionPlan bundle program decl) (bundle.versionViolations program decl) := by
  refine (reports_unsignedText _ _).bind fun id _ => ?_
  exact (mapM fun proc _ => reports_procPlan _ proc).bind_ok fun _ => reports_ok _

/-! ### The whole bundle -/

open Stroke

theorem reports_constTexts : Reports (bundle.consts.mapM (constText bundle))
    (bundle.consts.flatMap fun decl => bundle.nameViolations decl.value decl.name) :=
  mapM fun _ _ => (reports_valueText _ _ _).map _

theorem stops_constStrokes : Stops (constStrokes bundle)
    (bundle.consts.flatMap fun decl => bundle.nameViolations decl.value decl.name) := by
  rw [constStrokes]
  split
  · next hempty =>
    rw [isEmpty_iff.mp hempty]
    rfl
  · refine stops_checked_of_complete reports_constTexts fun texts => ?_
    exact complete_constModule _ texts

/-- **Programs.** -/
theorem stops_programStrokes (decl : ProgramDecl) :
    Stops (programStrokes bundle decl) (bundle.programViolations decl) := by
  refine stops_checked (reports_unsignedText _ _) fun id _ => ?_
  have hversions : Stops (decl.versions.flatMap fun version =>
      .blank :: checkedStrokes (versionPlan bundle decl.name version) versionStrokes)
      (decl.versions.flatMap (bundle.versionViolations decl.name)) :=
    Stops.flatMap fun version _ =>
      stops_checked_of_complete (reports_versionPlan _ _) complete_versionStrokes
  -- Around its versions, nothing in the module of a program fails.
  rw [Stops, ← hversions]
  simp [failures, enter, leave, leaveWith, superStrokes]

theorem stops_map_checked {α β : Type} {items : List α} {plan : α → Except EmitError β}
    {violations : α → List EmitError} {strokes : β → List Stroke}
    (hplan : ∀ item, Reports (plan item) (violations item))
    (hstrokes : ∀ value, Complete (strokes value)) :
    Stops (items.map fun item => checkedStrokes (plan item) strokes).flatten
      (items.flatMap violations) :=
  Stops.flatMap fun item _ => stops_checked_of_complete (hplan item) hstrokes

/-- **A module** stops at the first violation of its bundle. -/
theorem stops_moduleStrokes (options : Options) (bundle : Bundle) :
    Stops (moduleStrokes options bundle) bundle.violations := by
  have hhead := (stops_of_complete (complete_headStrokes options.inner)).append
    (stops_of_complete (complete_importStrokes (imports options bundle)))
  simp only [moduleStrokes, moduleParts, flatten_append, flatten_cons, flatten_nil,
    append_nil, ← append_assoc (headStrokes options.inner)]
  refine ((((hhead.append stops_constStrokes).append ?_).append ?_).append ?_).append
    ?_ |>.append ?_
  · exact stops_map_checked reports_enumPlan (complete_enumStrokes _)
  · exact stops_map_checked reports_structPlan (complete_structStrokes _)
  · exact stops_map_checked reports_unionPlan (complete_unionStrokes _)
  · exact stops_map_checked reports_aliasPlan (complete_aliasStrokes _)
  · exact Stops.flatMap fun decl _ => stops_programStrokes decl

/-- Rendering fails with the first violation. -/
theorem failure_render (options : Options) (bundle : Bundle) :
    (render options bundle).2 = bundle.violations.head? :=
  (failure_print 0 _).trans (stops_moduleStrokes options bundle)

theorem violations_eq_nil_of_render {options} (h : (render options bundle).2 = none) :
    bundle.violations = [] := by
  rwa [failure_render, head?_eq_none_iff] at h

/-- The declarations of a bundle pass their checks. -/
structure Passes (bundle : Bundle) : Prop where
  consts : ∃ texts, bundle.consts.mapM (constText bundle) = .ok texts
  structs : ∀ decl ∈ bundle.structs, ∃ plan, structPlan bundle decl = .ok plan
  unions : ∀ decl ∈ bundle.unions, ∃ plan, unionPlan bundle decl = .ok plan
  typedefs : ∀ decl ∈ bundle.typedefs, ∃ plan, aliasPlan bundle decl = .ok plan
  programs : ∀ decl ∈ bundle.programs, ∃ id,
    bundle.unsignedText decl.number decl.name = .ok id
  versions : ∀ decl ∈ bundle.programs, ∀ version ∈ decl.versions,
    ∃ plan, versionPlan bundle decl.name version = .ok plan
  formed : bundle.WellFormed

/-- **Emitted code comes from a bundle that passes.** -/
theorem passes_of_render {options : Options} (h : (render options bundle).2 = none) :
    Passes bundle := by
  have hnone := violations_eq_nil_of_render h
  simp only [violations, programViolations, append_eq_nil_iff, flatMap_eq_nil_iff] at hnone
  obtain ⟨⟨⟨⟨⟨hconsts, -⟩, hstructs⟩, hunions⟩, htypedefs⟩, hprograms⟩ := hnone
  exact {
    consts := reports_constTexts.exists_ok (flatMap_eq_nil_iff.mpr hconsts)
    structs := fun decl hdecl => (reports_structPlan decl).exists_ok (hstructs decl hdecl)
    unions := fun decl hdecl => (reports_unionPlan decl).exists_ok (hunions decl hdecl)
    typedefs := fun decl hdecl => (reports_aliasPlan decl).exists_ok (htypedefs decl hdecl)
    programs :=
      fun decl hdecl => (reports_unsignedText _ _).exists_ok (hprograms decl hdecl).1
    versions := fun decl hdecl version hversion =>
      (reports_versionPlan _ version).exists_ok ((hprograms decl hdecl).2 version hversion)
    formed := violations_eq_nil_iff.mp (violations_eq_nil_of_render h) }

/-- A bundle from which code is generated passes all checks. -/
theorem passes_of_generate {options text} (h : generate options bundle = .ok text) :
    Passes bundle :=
  passes_of_render (generate_eq_ok.mp h).2

theorem failure_renderTo_none (options : Options) (bundle : Bundle) :
    (renderTo none options bundle).failure = bundle.violations.head? := by
  rw [renderTo_none, failure_rendered, failure_render]

/-- **Emission succeeds on well-formed bundles only**, and whatever the
options, what it fails with is the first of all that is wrong with the
bundle. -/
theorem succeeds_iff_wellFormed (options : Options) (bundle : Bundle) :
    ((renderTo none options bundle).failure = none ↔ bundle.WellFormed) ∧
      (renderTo none options bundle).failure = bundle.violations.head? := by
  rw [failure_renderTo_none, head?_eq_none_iff, violations_eq_nil_iff]
  exact ⟨Iff.rfl, rfl⟩

end Xdr.Emit
