import Mathlib.Data.List.Nodup
import Xdr.Proofs.Emit.Strokes

/-!
# The cases of a union

A union is read case by case.  What one case adds is said here once, and
everything that is known of a union follows from it along the cases.

## Main Statements

* `Emit.addArm_eq_ok`, `Emit.addLabel_value`, `Emit.addLabel_otherwise`,
  `Emit.addCase_eq_ok` — what one case adds
* `Emit.armsOf_of_unionPlan` — the arms of a union are the distinct fields
  of its cases
-/

namespace Xdr

open Case List

/-! ### Distinct items in order -/

section Distinct

variable {α : Type} [DecidableEq α] {items : List α} {item : α}

theorem eraseDups_concat_of_mem (h : item ∈ items) :
    (items ++ [item]).eraseDups = items.eraseDups := by
  have hnone : [item].removeAll items = [] := by simp [removeAll, h]
  rw [eraseDups_append, hnone, eraseDups_nil, append_nil]

theorem eraseDups_concat_of_notMem (h : item ∉ items) :
    (items ++ [item]).eraseDups = items.eraseDups ++ [item] := by
  have hone : [item].removeAll items = [item] := by simp [removeAll, h]
  rw [eraseDups_append, hone]
  rfl

end Distinct

/-- The name of the arm that a case selects. -/
def Case.target? (case : Case) : Option String :=
  case.field?.map Field.name

namespace Emit

variable {bundle : Bundle} {decl : UnionDecl}

/-! ### One case -/

/-- A field that was given before adds nothing, and any other field is the
last of the arms. -/
theorem addArm_eq_ok {arms next field} (h : addArm bundle decl arms field = .ok next) :
    (∃ arm ∈ arms, arm.field = field ∧ next = arms) ∨
      (∀ arm ∈ arms, arm.name ≠ field.name) ∧ ∃ context layout,
        bundle.layout field.type field.form context = .ok layout ∧
          next = arms ++ [⟨field, layout⟩] := by
  unfold addArm at h
  split at h
  · cases h
  · split at h
    · next arm hfound =>
      split at h
      · next hsame =>
        cases h
        exact .inl ⟨arm, mem_of_find?_eq_some hfound, hsame, rfl⟩
      · cases h
    · next hnone =>
      obtain ⟨layout, hlayout, rfl⟩ := map_eq_ok.mp h
      refine .inr ⟨fun arm harm hname => ?_, _, layout, hlayout, rfl⟩
      exact find?_eq_none.mp hnone arm harm (beq_iff_eq.mpr hname)

section Labels

variable {state next : CaseState} {target : Option String}

theorem addLabel_value {value}
    (h : addLabel bundle decl state (.value value) target = .ok next) :
    ∃ condition, bundle.valueText value "i64" decl.name = .ok condition ∧
      next = { state with
        branches := state.branches ++ [(condition, target)]
        seen := (bundle.evaluate value).toList ++ state.seen } := by
  obtain ⟨condition, hcondition, h⟩ := bind_eq_ok.mp h
  refine ⟨condition, hcondition, ?_⟩
  cases hvalue : bundle.evaluate value with
  | none =>
    rw [hvalue] at h
    exact (Except.ok.inj h).symm
  | some number =>
    rw [hvalue] at h
    dsimp only at h
    split at h
    · cases h
    · exact (Except.ok.inj h).symm

theorem addLabel_otherwise (h : addLabel bundle decl state .otherwise target = .ok next) :
    state.fallback = none ∧ next = { state with fallback := some target } := by
  rw [addLabel] at h
  split at h
  · cases h
  · next hnone => exact ⟨hnone, (Except.ok.inj h).symm⟩

theorem arms_of_addLabel {label} (h : addLabel bundle decl state label target = .ok next) :
    next.arms = state.arms := by
  cases label with
  | value value =>
    obtain ⟨condition, -, rfl⟩ := addLabel_value h
    rfl
  | otherwise =>
    obtain ⟨-, rfl⟩ := addLabel_otherwise h
    rfl

/-- The field and the label of a case are added one after the other. -/
theorem addCase_eq_ok {case} (h : addCase bundle decl state case = .ok next) :
    ∃ arms,
      addLabel bundle decl { state with arms := arms } case.label case.target? = .ok next ∧
      ((case.field? = none ∧ arms = state.arms) ∨
        ∃ field, case.field? = some field ∧
          addArm bundle decl state.arms field = .ok arms) := by
  unfold addCase at h
  cases hcase : case.field? with
  | none =>
    rw [hcase] at h
    refine ⟨state.arms, ?_, .inl ⟨rfl, rfl⟩⟩
    rw [target?, hcase]
    exact h
  | some field =>
    rw [hcase] at h
    obtain ⟨arms, harms, hlabel⟩ := bind_eq_ok.mp h
    refine ⟨arms, ?_, .inr ⟨field, rfl, harms⟩⟩
    rw [target?, hcase]
    exact hlabel

end Labels

/-! ### Arms -/

/-- The arms found in some cases: each has its layout, their names are
distinct, and they are the distinct fields of the cases, in order. -/
structure ArmsOf (bundle : Bundle) (fields : List Field) (arms : List Arm) : Prop where
  layouts : ∀ arm ∈ arms, ∃ context,
    bundle.layout arm.field.type arm.field.form context = .ok arm.layout
  distinct : (arms.map Arm.name).Nodup
  order : arms.map Arm.field = fields.eraseDups

namespace ArmsOf

variable {fields : List Field} {arms : List Arm} (harms : ArmsOf bundle fields arms)
include harms

theorem mem_iff (field : Field) : field ∈ arms.map Arm.field ↔ field ∈ fields := by
  rw [harms.order, mem_eraseDups]

theorem addArm {next field} (h : Emit.addArm bundle decl arms field = .ok next) :
    ArmsOf bundle (fields ++ [field]) next := by
  rcases addArm_eq_ok h with ⟨arm, harm, rfl, rfl⟩ | ⟨hnew, context, layout, hlayout, rfl⟩
  · refine ⟨harms.layouts, harms.distinct, ?_⟩
    rw [eraseDups_concat_of_mem ((harms.mem_iff _).mp (mem_map_of_mem harm))]
    exact harms.order
  · have hfield : field ∉ fields := by
      intro hfield
      obtain ⟨arm, harm, rfl⟩ := mem_map.mp ((harms.mem_iff field).mpr hfield)
      exact hnew arm harm rfl
    refine ⟨forall_mem_append.mpr ⟨harms.layouts, by simpa using ⟨context, hlayout⟩⟩, ?_, ?_⟩
    · rw [map_append, map_singleton, ← concat_eq_append]
      refine harms.distinct.concat fun hmem => ?_
      obtain ⟨arm, harm, hname⟩ := mem_map.mp hmem
      exact hnew arm harm hname
    · rw [eraseDups_concat_of_notMem hfield, map_append, harms.order]
      rfl

end ArmsOf

theorem ArmsOf.addCase {before : List Case} {state next : CaseState} {case}
    (harms : ArmsOf bundle (before.filterMap field?) state.arms)
    (h : Emit.addCase bundle decl state case = .ok next) :
    ArmsOf bundle ((before ++ [case]).filterMap field?) next.arms := by
  obtain ⟨arms, hlabel, hfield⟩ := addCase_eq_ok h
  rw [arms_of_addLabel hlabel, filterMap_append]
  rcases hfield with ⟨hnone, rfl⟩ | ⟨field, hsome, hadd⟩
  · rw [filterMap_cons_none hnone, filterMap_nil, append_nil]
    exact harms
  · rw [filterMap_cons_some hsome, filterMap_nil]
    exact harms.addArm hadd

theorem armsOf_nil (bundle : Bundle) : ArmsOf bundle [] [] :=
  ⟨by simp, nodup_nil, rfl⟩

/-- **The plan of a union** has the layout of its discriminant, and its arms
are the distinct fields of its cases. -/
theorem armsOf_of_unionPlan {plan : UnionPlan} (h : unionPlan bundle decl = .ok plan) :
    plan.name = decl.name ∧ plan.tag = decl.discriminant.name ∧
      (∃ context, bundle.layout decl.discriminant.type .plain context = .ok plan.layout) ∧
      ArmsOf bundle (decl.cases.filterMap field?) plan.arms := by
  rw [unionPlan] at h
  obtain ⟨layout, hlayout, h⟩ := bind_eq_ok.mp h
  obtain ⟨key, -, h⟩ := bind_eq_ok.mp h
  obtain ⟨state, hstate, h⟩ := bind_eq_ok.mp h
  have harms : ArmsOf bundle (decl.cases.filterMap field?) state.arms :=
    foldlM_invariant (K := fun cases (state : CaseState) =>
      ArmsOf bundle (cases.filterMap field?) state.arms)
      ArmsOf.addCase hstate (armsOf_nil bundle)
  cases h
  exact ⟨rfl, rfl, ⟨_, hlayout⟩, harms⟩

end Emit
end Xdr
