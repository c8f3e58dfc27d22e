import Mathlib.Data.List.Forall2
import Xdr.Output

/-!
# Results that may be errors

What follows from a run that gave a result: of one step after another, of a
step for each item of a list, and of steps that hand on a state; and what
writers have produced one after the other.

## Main Statements

* `bind_eq_ok`, `map_eq_ok` — a result of two steps
* `mapM_eq_ok_iff` — a result for a list is a result for each of its items
* `foldlM_invariant` — what each step preserves holds at the end
* `Output.andThen_eq_wrote` — a sequence of writers finishes when each does
* `Output.failure_andThen_eq` — a sequence of writers fails as the first of
  them that does
-/

namespace Xdr

open List

variable {ε α β : Type}

theorem bind_eq_ok {first : Except ε α} {next : α → Except ε β} {result : β} :
    (first >>= next) = .ok result ↔ ∃ value, first = .ok value ∧ next value = .ok result := by
  cases first with
  | error error => simp [bind, Except.bind]
  | ok value => simp [bind, Except.bind]

theorem map_eq_ok {first : Except ε α} {f : α → β} {result : β} :
    first.map f = .ok result ↔ ∃ value, first = .ok value ∧ f value = result := by
  cases first <;> simp [Except.map]

theorem eq_ok_of_toOption {result : Except ε α} {value} (h : result.toOption = some value) :
    result = .ok value := by
  cases result with
  | error error => cases h
  | ok found => exact congrArg Except.ok (Option.some.inj h)

theorem exists_ok_of_isOk {result : Except ε α} (h : result.isOk = true) :
    ∃ value, result = .ok value := by
  cases result with
  | error error => cases h
  | ok value => exact ⟨value, rfl⟩

/-! ### Lists -/

section Lists

variable {f : α → Except ε β} {items : List α} {results : List β}

/-- **A list has a result** if each of its items has one, and then these in
order. -/
theorem mapM_eq_ok_iff :
    items.mapM f = .ok results ↔
      List.Forall₂ (fun item result => f item = .ok result) items results := by
  induction items generalizing results with
  | nil => simp [pure, Except.pure, eq_comm]
  | cons item items ih =>
    simp only [mapM_cons, bind_eq_ok, forall₂_cons_left_iff, ih]
    constructor
    · rintro ⟨first, hfirst, rest, hrest, ⟨⟩⟩
      exact ⟨first, rest, hfirst, hrest, rfl⟩
    · rintro ⟨first, rest, hfirst, hrest, rfl⟩
      exact ⟨first, hfirst, rest, hrest, rfl⟩

/-- The items with their results. -/
theorem exists_zip_of_mapM (h : items.mapM f = .ok results) :
    ∃ found : List (α × β), found.map Prod.fst = items ∧ found.map Prod.snd = results ∧
      ∀ entry ∈ found, f entry.1 = .ok entry.2 := by
  have hall := mapM_eq_ok_iff.mp h
  refine ⟨items.zip results, map_fst_zip (Nat.le_of_eq hall.length_eq),
    map_snd_zip (Nat.le_of_eq hall.length_eq.symm), fun entry hentry => ?_⟩
  exact (forall₂_iff_zip.mp hall).2 hentry

theorem exists_of_mem_mapM (h : items.mapM f = .ok results) :
    ∀ result ∈ results, ∃ item ∈ items, f item = .ok result := by
  obtain ⟨found, rfl, rfl, hfound⟩ := exists_zip_of_mapM h
  refine forall_mem_map.mpr fun entry hentry => ?_
  exact ⟨entry.1, mem_map_of_mem hentry, hfound entry hentry⟩

/-- Results that are known one by one are known together. -/
theorem eq_map_of_mapM {g} (hf : ∀ {item result}, f item = .ok result → result = g item)
    (h : items.mapM f = .ok results) : results = items.map g := by
  obtain ⟨found, rfl, rfl, hfound⟩ := exists_zip_of_mapM h
  rw [map_map]
  exact map_congr_left fun entry hentry => hf (hfound entry hentry)

/-- Results that are all found, one for each item. -/
theorem mapM_map_eq_ok {γ : Type} {g : γ → α} {result : γ → β} {sources : List γ}
    (h : ∀ source ∈ sources, f (g source) = .ok (result source)) :
    (sources.map g).mapM f = .ok (sources.map result) := by
  rw [mapM_eq_ok_iff, forall₂_map_left_iff, forall₂_map_right_iff, forall₂_same]
  exact h

theorem mapM_congr_mem {g} (h : ∀ item ∈ items, f item = g item) :
    items.mapM f = items.mapM g := by
  induction items with
  | nil => rfl
  | cons item items ih =>
    rw [forall_mem_cons] at h
    rw [mapM_cons, mapM_cons, h.1, ih h.2]

end Lists

/-- What every step preserves, as it speaks of the items so far, holds at
the end of all items. -/
theorem foldlM_invariant {σ : Type} {step : σ → α → Except ε σ} {K : List α → σ → Prop}
    (hstep : ∀ {before state item next}, K before state → step state item = .ok next →
      K (before ++ [item]) next)
    {items : List α} {state last : σ} (h : items.foldlM step state = .ok last)
    (hstart : K [] state) : K items last := by
  suffices hfrom : ∀ before, K before state → K (before ++ items) last from hfrom [] hstart
  clear hstart
  induction items generalizing state with
  | nil =>
    cases h
    intro before hbefore
    rwa [append_nil]
  | cons item items ih =>
    intro before hbefore
    rw [foldlM_cons] at h
    obtain ⟨next, hnext, hrest⟩ := bind_eq_ok.mp h
    rw [append_cons]
    exact ih hrest _ (hstep hbefore hnext)

/-! ### Writers -/

namespace Output

variable {output : Output ε α}

theorem wrote_inj {first second} :
    (wrote first : Output ε α) = wrote second ↔ first = second := by
  simp [wrote]

theorem failed_ne_wrote (failure : ε) (content : List α) :
    failed failure ≠ wrote content := by
  simp [failed, wrote]

theorem result_eq_ok {content} : output.result = .ok content ↔ output = wrote content := by
  rcases output with ⟨written, _ | failure⟩ <;> simp [result, wrote]

theorem exists_result_eq_ok :
    (∃ content, output.result = .ok content) ↔ output.failure = none := by
  rcases output with ⟨written, _ | failure⟩ <;> simp [result]

theorem result_eq_error {failure} :
    output.result = .error failure ↔ output.failure = some failure := by
  rcases output with ⟨written, _ | other⟩ <;> simp [result]

theorem andThen_assoc (first second third : Output ε α) :
    (first.andThen second).andThen third = first.andThen (second.andThen third) := by
  rcases first with ⟨content, _ | failure⟩
  · rcases second with ⟨more, _ | failure⟩
    · simp only [andThen, append_assoc]
    · rfl
  · rfl

@[simp] theorem nil_andThen (output : Output ε α) : (wrote []).andThen output = output := rfl

@[simp] theorem wrote_andThen_wrote (first second : List α) :
    (wrote first : Output ε α).andThen (wrote second) = wrote (first ++ second) := rfl

theorem wrote_andThen_andThen (first second : List α) (output : Output ε α) :
    (wrote first).andThen ((wrote second).andThen output) =
      (wrote (first ++ second)).andThen output := by
  rw [← andThen_assoc, wrote_andThen_wrote]

/-- A sequence of writers fails as the first of them that does. -/
theorem failure_andThen_eq (first second : Output ε α) :
    (first.andThen second).failure = first.failure.or second.failure := by
  rw [andThen]
  cases hfirst : first.failure with
  | none => rfl
  | some failure => exact hfirst

/-- A sequence of writers finishes when each does. -/
theorem andThen_eq_wrote {first second : Output ε α} {content} :
    first.andThen second = wrote content ↔
      ∃ front back, first = wrote front ∧ second = wrote back ∧ content = front ++ back := by
  constructor
  · intro h
    rcases first with ⟨front, _ | failure⟩
    · obtain ⟨hcontent, hfailure⟩ := Output.mk.inj h
      exact ⟨front, second.content, rfl, by rw [wrote, ← hfailure], hcontent.symm⟩
    · cases h
  · rintro ⟨front, back, rfl, rfl, rfl⟩
    rfl

end Output

end Xdr
