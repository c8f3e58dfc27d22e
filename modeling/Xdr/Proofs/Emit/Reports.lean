import Xdr.Proofs.Emit.Strokes

/-!
# What a failing check reports

Checks are made one after the other, and the first that fails is reported.
So if every check is given the list of what violates it, the list of a whole
run is made by appending, and what is reported is its head.  The same holds
of the strokes of an emitter, of which the first that fails is the last.

## Main Definitions

* `Emit.Reports` — a check reports the first of some violations
* `Emit.Stops` — an emitter stops at the first of some violations

## Main Statements

* `Emit.Reports.bind`, `Emit.Reports.mapM`, `Emit.Reports.foldlM` — checks
  one after the other
* `Emit.Stops.append`, `Emit.Stops.flatMap`, `Emit.stops_checked` — strokes
  one after the other
-/

namespace Xdr

open List

/-! ### Judging in order -/

/-- What `judge` finds in each of the items, given those before it. -/
def eachAfter {α β : Type} (judge : List α → α → List β) : List α → List α → List β
  | _, [] => []
  | before, item :: items => judge before item ++ eachAfter judge (before ++ [item]) items

/-- Nothing is found if nothing is wrong with any item, nor between any two.
-/
theorem eachAfter_eq_nil_iff {α β : Type} {judge : List α → α → List β} {Sound : α → Prop}
    {Apart : α → α → Prop}
    (h : ∀ before item, judge before item = [] ↔ Sound item ∧ ∀ earlier ∈ before,
      Apart earlier item) {before items : List α} : eachAfter judge before items = [] ↔
      (∀ item ∈ items, Sound item ∧ ∀ earlier ∈ before, Apart earlier item) ∧
      items.Pairwise Apart := by
  induction items generalizing before with
  | nil => simp [eachAfter]
  | cons item items ih =>
    rw [eachAfter, append_eq_nil_iff, h, ih, forall_mem_cons, pairwise_cons]
    simp only [forall_mem_append, forall_mem_singleton]
    constructor
    · rintro ⟨hitem, hlater, hpairwise⟩
      exact ⟨⟨hitem, fun later hmem => ⟨(hlater later hmem).1, (hlater later hmem).2.1⟩⟩,
        fun later hmem => (hlater later hmem).2.2, hpairwise⟩
    · rintro ⟨⟨hitem, hlater⟩, hfirst, hpairwise⟩
      exact ⟨hitem, fun later hmem => ⟨(hlater later hmem).1, (hlater later hmem).2,
        hfirst later hmem⟩, hpairwise⟩

namespace Emit

/-! ### Checks -/

/-- The check reports the first of the violations, and passes if there are
none. -/
def Reports {α : Type} (check : Except EmitError α) (violations : List EmitError) : Prop :=
  match check with
  | .ok _ => violations = []
  | .error error => violations.head? = some error

section Checks

variable {α β : Type} {violations others : List EmitError}

theorem reports_ok (value : α) : Reports (.ok value) [] :=
  rfl

theorem reports_error (error : EmitError) (others : List EmitError) :
    Reports (.error error : Except EmitError α) (error :: others) :=
  rfl

theorem Reports.exists_ok {check : Except EmitError α} (h : Reports check violations)
    (hnone : violations = []) : ∃ value, check = .ok value := by
  cases check with
  | ok value => exact ⟨value, rfl⟩
  | error error =>
    rw [hnone] at h
    cases h

theorem Reports.bind {check : Except EmitError α} {next : α → Except EmitError β}
    (h : Reports check violations)
    (hnext : ∀ value, check = .ok value → Reports (next value) others) :
    Reports (check >>= next) (violations ++ others) := by
  cases check with
  | ok value =>
    have hnone : violations = [] := h
    rw [hnone]
    exact hnext value rfl
  | error error =>
    have hfirst : violations.head? = some error := h
    show (violations ++ others).head? = some error
    rw [head?_append, hfirst]
    rfl

theorem Reports.map {check} (h : Reports check violations) (f : α → β) :
    Reports (check.map f) violations := by
  cases check with
  | ok value => exact h
  | error error => exact h

/-- A last step that cannot fail does not count. -/
theorem Reports.bind_ok {check : Except EmitError α} {next : α → Except EmitError β}
    (h : Reports check violations) (hnext : ∀ value, Reports (next value) []) :
    Reports (check >>= next) violations := by
  have hbind := h.bind fun value _ => hnext value
  rwa [append_nil] at hbind

theorem Reports.mapM {check : α → Except EmitError β} {violations : α → List EmitError}
    {items : List α} (h : ∀ item ∈ items, Reports (check item) (violations item)) :
    Reports (items.mapM check) (items.flatMap violations) := by
  induction items with
  | nil => exact reports_ok []
  | cons item items ih =>
    rw [forall_mem_cons] at h
    rw [mapM_cons, flatMap_cons]
    exact h.1.bind fun value _ => (ih h.2).bind_ok fun values => reports_ok _

/-- Items are checked in the light of a state, which tells of the items
before them what the judgement needs. -/
theorem Reports.foldlM {σ : Type} {step : σ → α → Except EmitError σ}
    {judge : List α → α → List EmitError} {Tells : List α → σ → Prop}
    (hreports : ∀ {before state item},
      Tells before state → Reports (step state item) (judge before item))
    (htells : ∀ {before state item next}, Tells before state → step state item = .ok next →
      Tells (before ++ [item]) next)
    {before items : List α} {state : σ} (h : Tells before state) :
    Reports (items.foldlM step state) (eachAfter judge before items) := by
  induction items generalizing before state with
  | nil => exact reports_ok state
  | cons item items ih =>
    rw [foldlM_cons, eachAfter]
    exact (hreports h).bind fun next hnext => ih (htells h hnext)

end Checks

/-! ### Strokes -/

open Stroke

/-- The emitter stops at the first of the violations, and gets through if
there are none. -/
def Stops (strokes : List Stroke) (violations : List EmitError) : Prop :=
  (failures strokes).head? = violations.head?

section Strokes

variable {α : Type} {violations others : List EmitError} {front back strokes : List Stroke}

theorem stops_of_complete (h : Complete strokes) : Stops strokes [] := by
  rw [Stops, h.failures_eq]

theorem Stops.append (h : Stops front violations) (hback : Stops back others) :
    Stops (front ++ back) (violations ++ others) := by
  rw [Stops] at h hback ⊢
  rw [failures_append, head?_append, head?_append, h, hback]

theorem Stops.flatMap {strokes : α → List Stroke} {violations : α → List EmitError}
    {items : List α} (h : ∀ item ∈ items, Stops (strokes item) (violations item)) :
    Stops (items.flatMap strokes) (items.flatMap violations) := by
  induction items with
  | nil => rfl
  | cons item items ih =>
    rw [forall_mem_cons] at h
    rw [flatMap_cons, flatMap_cons]
    exact h.1.append (ih h.2)

/-- A declaration is checked before it is emitted. -/
theorem stops_checked {plan : Except EmitError α} {strokes : α → List Stroke}
    (h : Reports plan violations)
    (hstrokes : ∀ value, plan = .ok value → Stops (strokes value) others) :
    Stops (checkedStrokes plan strokes) (violations ++ others) := by
  cases plan with
  | ok value =>
    have hnone : violations = [] := h
    rw [hnone]
    exact hstrokes value rfl
  | error error =>
    have hfirst : violations.head? = some error := h
    rw [Stops, head?_append, hfirst]
    rfl

/-- A declaration that was checked is emitted to its end. -/
theorem stops_checked_of_complete {plan : Except EmitError α} {strokes : α → List Stroke}
    (h : Reports plan violations) (hstrokes : ∀ value, Complete (strokes value)) :
    Stops (checkedStrokes plan strokes) violations := by
  have hstops := stops_checked h fun value _ => stops_of_complete (hstrokes value)
  rwa [append_nil] at hstops

end Strokes

end Emit
end Xdr
