import Xdr.Proofs.Emit.Unions

/-!
# The arm that is selected

A union is read case by case.  Its arms are collected in the order of their
first cases, its labels become the tests of `arm()` in the order of the
cases, and the default case is kept apart, wherever it stands.  So the
emitted functions, all of which ask `arm()`, agree on the arms.

## Main Statements

* `Emit.Gathers.addCase` — every case adds to what is known
* `Emit.selection_of_render` — the emitted functions of a union agree on its
  arms
-/

namespace Xdr

open Xdr.Bundle Case List UnionDecl

/-! ### Distinct items in order -/

section Distinct

variable {α β : Type} [DecidableEq α] [DecidableEq β] {items : List α} {item : α}

theorem nodup_eraseDups (items : List α) : items.eraseDups.Nodup := by
  induction items using reverseRecOn with
  | nil => exact nodup_nil
  | append_singleton items item ih =>
    by_cases h : item ∈ items
    · rwa [eraseDups_concat_of_mem h]
    · rw [eraseDups_concat_of_notMem h, ← concat_eq_append]
      exact ih.concat (mt mem_eraseDups.mp h)

/-- Items that are told apart by their images are distinct where these are. -/
theorem eraseDups_map {f : α → β}
    (hf : ∀ item ∈ items, ∀ other ∈ items, f item = f other → item = other) :
    (items.map f).eraseDups = items.eraseDups.map f := by
  induction items using reverseRecOn with
  | nil => rfl
  | append_singleton items item ih =>
    have hold := ih fun first hfirst second hsecond =>
      hf first (mem_append_left _ hfirst) second (mem_append_left _ hsecond)
    rw [map_append, map_singleton]
    by_cases h : item ∈ items
    · rw [eraseDups_concat_of_mem h, eraseDups_concat_of_mem (mem_map_of_mem h), hold]
    · have himage : f item ∉ items.map f := by
        intro hmem
        obtain ⟨other, hother, heq⟩ := mem_map.mp hmem
        exact h (hf other (mem_append_left _ hother) item (by simp) heq ▸ hother)
      rw [eraseDups_concat_of_notMem h, eraseDups_concat_of_notMem himage, hold, map_append,
        map_singleton]

end Distinct

/-! ### What a union selects -/

/-- The test of a case, with the arm that it selects. -/
def Case.choice? (case : Case) : Option (IntExpr × Option String) :=
  match case.label with
  | .value value => some (value, case.target?)
  | .otherwise => none

namespace UnionDecl

/-- The distinct names of the arms, in the order of their first cases. -/
def armNames (decl : UnionDecl) : List String :=
  (decl.fields.map Field.name).eraseDups

/-- The labels with a value, in the order of the cases, with the arms that
they select. -/
def choices (decl : UnionDecl) : List (IntExpr × Option String) :=
  decl.cases.filterMap choice?

/-- The arm of the default case, wherever it stands, and none if there is no
such case or arm. -/
def fallback? (decl : UnionDecl) : Option String :=
  (decl.cases.find? fun case => case.label = .otherwise).bind target?

end UnionDecl

namespace Emit

open Doc

variable {bundle : Bundle} {decl : UnionDecl} {cases : List Case} {state next : CaseState}

/-- A test of `arm()`. -/
def branchOf (bundle : Bundle) (choice : IntExpr × Option String) : Branch :=
  ⟨bundle.expression "i64" choice.1, choice.2⟩

/-- What is known after some cases: the tests in order, and the default case
if there was one, which is then the only one. -/
structure Gathers (bundle : Bundle) (cases : List Case) (state : CaseState) : Prop where
  branches : state.branches = ((cases.filterMap choice?).map (branchOf bundle)).map
    fun branch => (branch.condition, branch.target)
  fallback : state.fallback = (cases.find? fun case => case.label = .otherwise).map target?
  single : ∀ case ∈ cases, case.label = .otherwise → state.fallback = some case.target?

/-- **One case.** -/
theorem Gathers.addCase {case : Case} (hstate : Gathers bundle cases state)
    (h : Emit.addCase bundle decl state case = .ok next) :
    Gathers bundle (cases ++ [case]) next := by
  obtain ⟨arms, hlabel, -⟩ := addCase_eq_ok h
  cases hcase : case.label with
  | value value =>
    rw [hcase] at hlabel
    obtain ⟨condition, hcondition, rfl⟩ := addLabel_value hlabel
    have hchoice : case.choice? = some (value, case.target?) := by rw [choice?, hcase]
    refine ⟨?_, ?_, forall_mem_append.mpr ⟨hstate.single, ?_⟩⟩
    · rw [hstate.branches, filterMap_append, filterMap_cons_some hchoice,
        valueText_eq hcondition]
      simp [branchOf]
    · rw [hstate.fallback, find?_append]
      simp [hcase]
    · simp [hcase]
  | otherwise =>
    rw [hcase] at hlabel
    obtain ⟨hnone, rfl⟩ := addLabel_otherwise hlabel
    have hchoice : case.choice? = none := by rw [choice?, hcase]
    have hfirst : cases.find? (fun case => case.label = .otherwise) = none :=
      Option.map_eq_none_iff.mp (hstate.fallback.symm.trans hnone)
    refine ⟨?_, ?_, forall_mem_append.mpr ⟨fun other hold hdefault => ?_, by simp⟩⟩
    · rw [filterMap_append, filterMap_cons_none hchoice, filterMap_nil, append_nil]
      exact hstate.branches
    · rw [find?_append, hfirst]
      simp [hcase]
    · exact absurd (decide_eq_true hdefault) (find?_eq_none.mp hfirst other hold)

/-- The plan of a union has its distinct fields in order, its tests and its
default case. -/
theorem gathers_of_unionPlan {plan} (h : unionPlan bundle decl = .ok plan) :
    plan.arms.map Arm.field = decl.fields.eraseDups ∧
      plan.branches = (decl.choices.map (branchOf bundle)).map (fun branch =>
        (branch.condition, branch.target)) ∧ plan.fallback = decl.fallback? ∧
      (∀ case ∈ decl.cases, case.label = .otherwise → plan.fallback = case.target?) ∧
      bundle.keyText decl.discriminant.type ("self." ++ decl.discriminant.name) decl.name =
        .ok plan.key := by
  obtain ⟨-, -, -, harms⟩ := armsOf_of_unionPlan h
  refine ⟨harms.order, ?_⟩
  rw [unionPlan] at h
  obtain ⟨layout, -, h⟩ := bind_eq_ok.mp h
  obtain ⟨key, hkey, h⟩ := bind_eq_ok.mp h
  obtain ⟨state, hstate, h⟩ := bind_eq_ok.mp h
  have hgathers : Gathers bundle decl.cases state :=
    foldlM_invariant Gathers.addCase hstate ⟨rfl, rfl, by simp⟩
  cases h
  refine ⟨hgathers.branches, ?_, fun case hcase hdefault => ?_, hkey⟩
  · show state.fallback.join = _
    rw [hgathers.fallback, fallback?]
    cases decl.cases.find? fun case => case.label = .otherwise <;> rfl
  · show state.fallback.join = _
    rw [hgathers.single case hcase hdefault]
    rfl

theorem wellFormed_of_unionPlan {plan} (h : unionPlan bundle decl = .ok plan) :
    decl.WellFormed bundle := by
  have hreports := @reports_unionPlan bundle decl
  rw [h] at hreports
  exact unionViolations_eq_nil.mp hreports

/-! ### What is emitted -/

theorem host_of_arm {arm : Arm} {transfer context}
    (hlayout : bundle.layout arm.field.type arm.field.form context = .ok arm.layout)
    (hprescribed : Move.Prescribed bundle ⟨arm.field, transfer⟩)
    (hrealized : arm.layout.Realizes transfer) : arm.host = arm.field.heldArm := by
  have hboxed :
    arm.isBoxed = decide (arm.field.form = .plain ∧ arm.field.type.declared?.isSome) :=
    (hrealized.boxed arm.field).trans (Prescribes.isOwn_eq hprescribed)
  rw [Arm.host, Field.heldArm, hboxed, host_of_layout hlayout]
  simp only [decide_eq_true_eq]
  rfl

/-- All that is emitted for a union that passes stands in the emitted text. -/
theorem text_of_union {options} (h : (render options bundle).2 = none)
    (hdecl : decl ∈ bundle.unions) :
    ∃ tag arms key, bundle.Prescribes decl.discriminant.type .plain tag ∧
    (∀ move ∈ arms, move.Prescribed bundle) ∧ arms.map Move.field = decl.fields.eraseDups ∧
      bundle.keyText decl.discriminant.type ("self." ++ decl.discriminant.name) decl.name =
        .ok key ∧
      ∃ before after, (render options bundle).1 =
        Doc.text (before ++ unionBlock options.structural decl tag arms key
          decl.fallback? (decl.choices.map (branchOf bundle)) ++ after) := by
  obtain ⟨plan, hplan⟩ := (passes_of_render h).unions decl hdecl
  obtain ⟨hname, htag, ⟨context, hlayout⟩, harms⟩ := armsOf_of_unionPlan hplan
  obtain ⟨-, hbranches, hfallback, -, hkey⟩ := gathers_of_unionPlan hplan
  obtain ⟨tag, hprescribed, hrealized⟩ := exists_transfer_of_layout hlayout
  obtain ⟨transfer, htransfer⟩ := exists_transfers harms.layouts
  have hhosts : ∀ arm ∈ plan.arms, arm.host = arm.field.heldArm := by
    intro arm harm
    obtain ⟨_, hfound⟩ := harms.layouts arm harm
    exact host_of_arm hfound (htransfer arm harm).1 (htransfer arm harm).2
  have hprints := prints_unionStrokes options.structural hname htag
    (host_of_layout hlayout) hhosts hrealized
    (fun arm harm => (htransfer arm harm).2) hbranches
  rw [hfallback] at hprints
  refine ⟨tag, plan.arms.map fun arm => ⟨arm.field, transfer arm⟩, plan.key, hprescribed, ?_,
    ?_, hkey, ?_⟩
  · intro move hmove
    obtain ⟨arm, harm, rfl⟩ := mem_map.mp hmove
    exact (htransfer arm harm).1
  · rw [map_map]
    exact harms.order
  · have hpart :
      [] ++ (unionStrokes options.structural plan ++ []) ∈ moduleParts options bundle := by
      simp only [nil_append, append_nil, moduleParts, mem_append]
      exact .inl (.inl (.inr (mem_map_checkedStrokes hdecl hplan)))
    exact exists_text_of_prints h hpart Stroke.level_nil hprints

/-! ### Agreement -/

theorem mem_armNames {name} :
    name ∈ decl.armNames ↔ ∃ case ∈ decl.cases, case.target? = some name := by
  rw [armNames, mem_eraseDups, mem_map]
  constructor
  · rintro ⟨field, hfield, rfl⟩
    obtain ⟨case, hcase, hsome⟩ := mem_filterMap.mp hfield
    exact ⟨case, hcase, by rw [target?, hsome, Option.map_some]⟩
  · rintro ⟨case, hcase, htarget⟩
    obtain ⟨field, hfield, rfl⟩ := Option.map_eq_some_iff.mp htarget
    exact ⟨field, mem_filterMap.mpr ⟨case, hcase, hfield⟩, rfl⟩

/-- What `arm()` can select are the arms, if there is only one default case.
-/
theorem mem_armNames_iff
    (hsingle : ∀ case ∈ decl.cases, case.label = .otherwise → decl.fallback? = case.target?)
    {name} :
    name ∈ decl.armNames ↔ some name ∈ decl.choices.map Prod.snd ++ [decl.fallback?] := by
  rw [mem_armNames, mem_append, mem_singleton, mem_map]
  constructor
  · rintro ⟨case, hcase, htarget⟩
    cases hlabel : case.label with
    | value value =>
      have hchoice : case.choice? = some (value, case.target?) := by rw [choice?, hlabel]
      exact .inl ⟨_, mem_filterMap.mpr ⟨case, hcase, hchoice⟩, htarget⟩
    | otherwise => exact .inr (htarget.symm.trans (hsingle case hcase hlabel).symm)
  · rintro (⟨choice, hchoice, htarget⟩ | hfallback)
    · obtain ⟨case, hcase, hsome⟩ := mem_filterMap.mp hchoice
      refine ⟨case, hcase, ?_⟩
      unfold choice? at hsome
      split at hsome <;> cases hsome
      exact htarget
    · obtain ⟨case, hcase, htarget⟩ := Option.bind_eq_some_iff.mp hfallback.symm
      exact ⟨case, mem_of_find?_eq_some hcase, htarget⟩

theorem filterMap_evaluate_choices :
    (decl.choices.map Prod.fst).filterMap bundle.evaluate =
      decl.cases.filterMap fun case => bundle.labelNumber? case.label := by
  rw [choices, filterMap_map, filterMap_filterMap]
  congr 1
  funext case
  unfold choice?
  cases case.label <;> rfl

/-- **The emitted functions of a union agree on its arms.**  In the emitted
text stands, line by line, all that belongs to the union.  The structure has
the discriminant and one field for each arm, all with distinct names, in the
order of the first cases of the arms.  The functions that pack and unpack,
and those of the structural form if there are any, choose among the same
arms.  These are what `arm()` can select: it tests every label with a value,
in the order of the cases, and falls back to the default case wherever that
stands, or to nothing if there is none.  The labels that can be evaluated
are distinct. -/
theorem selection_of_render {options : Options} (h : (render options bundle).2 = none)
    (hdecl : decl ∈ bundle.unions) :
    (∃ tag arms key, bundle.Prescribes decl.discriminant.type .plain tag ∧
      (∀ move ∈ arms, move.Prescribed bundle) ∧ arms.map Move.field = decl.fields.eraseDups ∧
      (arms.map fun move => move.field.name) = decl.armNames ∧
      bundle.keyText decl.discriminant.type ("self." ++ decl.discriminant.name) decl.name =
        .ok key ∧
      ∃ before after, (render options bundle).1 =
        Doc.text (before ++ unionBlock options.structural decl tag arms key
          decl.fallback? (decl.choices.map (branchOf bundle)) ++ after)) ∧
    (decl.discriminant.name :: decl.armNames).Nodup ∧
    (∀ name, name ∈ decl.armNames ↔
      some name ∈ decl.choices.map Prod.snd ++ [decl.fallback?]) ∧
    (∀ case ∈ decl.cases, case.label = .otherwise → decl.fallback? = case.target?) ∧
    ((∀ case ∈ decl.cases, case.label ≠ .otherwise) → decl.fallback? = none) ∧
    ((decl.choices.map Prod.fst).filterMap bundle.evaluate).Nodup := by
  have hpasses : Passes bundle := passes_of_generate (generate_eq_ok.mpr ⟨rfl, h⟩)
  obtain ⟨plan, hplan⟩ := hpasses.unions decl hdecl
  have hwell := wellFormed_of_unionPlan hplan
  obtain ⟨-, -, hfallback, hsingle, -⟩ := gathers_of_unionPlan hplan
  rw [hfallback] at hsingle
  refine ⟨?_, ?_, fun name => mem_armNames_iff hsingle, hsingle, fun hnone => ?_, ?_⟩
  · obtain ⟨tag, arms, key, htag, hprescribed, hfields, hkey, htext⟩ := text_of_union h hdecl
    refine ⟨tag, arms, key, htag, hprescribed, hfields, ?_, hkey, htext⟩
    rw [UnionDecl.armNames, eraseDups_map hwell.agree, ← hfields, map_map]
    rfl
  · refine nodup_cons.mpr ⟨fun hmem => ?_, nodup_eraseDups _⟩
    obtain ⟨field, hfield, hname⟩ := mem_map.mp (mem_eraseDups.mp hmem)
    exact hwell.apart field hfield hname
  · have hfind : decl.cases.find? (fun case => case.label = .otherwise) = none :=
      find?_eq_none.mpr fun case hcase => mt of_decide_eq_true (hnone case hcase)
    rw [UnionDecl.fallback?, hfind, Option.bind_none]
  · rw [filterMap_evaluate_choices]
    exact hwell.distinct

/-- A union whose default case comes first and shares its arm with another
case. -/
def defaultFirst : UnionDecl where
  name := "u"
  discriminant := ⟨.int, "k"⟩
  cases := [⟨.otherwise, some .int, some "b", .plain⟩, ⟨.value (.literal "1"), some .bool,
    some "a", .plain⟩, ⟨.value (.literal "2"), some .int, some "b", .plain⟩,
    ⟨.value (.literal "4"), some .void, none, .plain⟩]

/-- The structure that holds it, and its `arm()`. -/
def defaultFirstLines : List String :=
  ["#[derive(Debug, Clone, PartialEq, Default)]",
    "pub struct u \x7b",
    "    pub k: i32,",
    "    pub b: Option<i32>,",
    "    pub a: Option<bool>,",
    "\x7d",
    "",
    "impl u \x7b",
    "    pub fn arm(&self) -> Option<&'static str> \x7b",
    "        let key = self.k as i64;",
    "        if key == 1 \x7b",
    "            Some(\"a\")",
    "        \x7d else if key == 2 \x7b",
    "            Some(\"b\")",
    "        \x7d else if key == 4 \x7b",
    "            None",
    "        \x7d else \x7b",
    "            Some(\"b\")",
    "        \x7d",
    "    \x7d",
    "\x7d"]

/-- It has two arms, and its default case is the last resort of `arm()`. -/
theorem selection_of_render_defaultFirst :
    (render .standard ⟨[], [], [], [defaultFirst], [], []⟩).2 = none ∧
      defaultFirst.armNames = ["b", "a"] ∧ defaultFirst.fallback? = some "b" ∧
      ∃ before after, (render .standard ⟨[], [], [], [defaultFirst], [], []⟩).1 =
        Doc.text (before ++ defaultFirstLines ++ after) := by
  have hrender : (render .standard ⟨[], [], [], [defaultFirst], [], []⟩).2 = none := by decide
  refine ⟨hrender, by decide, by decide, ?_⟩
  obtain ⟨⟨tag, arms, key, -, -, hfields, -, hkey, htext⟩, -⟩ :=
    selection_of_render hrender (.head _)
  obtain rfl : "self.k as i64" = key := Except.ok.inj hkey
  have harms : arms.map Move.field = [⟨"b", .int, .plain⟩, ⟨"a", .bool, .plain⟩] := hfields
  have hlines : holderLines defaultFirst (arms.map Move.field) ++ [""] ++
      armLines "u" "self.k as i64" defaultFirst.fallback?
        (defaultFirst.choices.map (branchOf ⟨[], [], [], [defaultFirst], [], []⟩)) =
          defaultFirstLines := by
    rw [harms]
    decide
  rw [← hlines]
  exact text_of_within (holder_within ..) htext

end Emit
end Xdr
