import Mathlib.Data.List.Forall2
import Xdr.Json.Basic
import Xdr.Proofs.Table

/-!
# Values that read the same

The members of an object are told apart by their keys, not by their places.
So two values read the same if they differ in the order of members only.

## Main Statements

* `Json.Same.refl` — a value reads the same as itself
* `Json.Same.of_cons` — a member of two objects at a time
* `Json.eq_of_rel_same`, `Json.Told.array` — members and arrays of things
  that are told apart by their values
-/

namespace Xdr.Json

open Table

/-- The two values read the same: objects have the same value under each
key. -/
inductive Same : Json → Json → Prop where
  | null : Same .null .null
  | bool (value : Bool) : Same (.bool value) (.bool value)
  | number (value : Number) : Same (.number value) (.number value)
  | string (value : String) : Same (.string value) (.string value)
  | array {items others} (h : List.Forall₂ Same items others) :
      Same (.array items) (.array others)
  | object {members others}
      (h : ∀ key, Option.Rel Same (find? members key) (find? others key)) :
      Same (.object members) (.object others)

@[simp] theorem same_string {first second} :
    Same (.string first) (.string second) ↔ first = second := by
  constructor
  · rintro ⟨⟩
    rfl
  · rintro rfl
    exact .string first

@[simp] theorem same_bool {first second} :
    Same (.bool first) (.bool second) ↔ first = second := by
  constructor
  · rintro ⟨⟩
    rfl
  · rintro rfl
    exact .bool first

@[simp] theorem same_array {items others} :
    Same (.array items) (.array others) ↔ List.Forall₂ Same items others := by
  constructor
  · rintro (_ | _ | _ | _ | h)
    exact h
  · exact .array

@[simp] theorem same_object {members others} :
    Same (.object members) (.object others) ↔
      ∀ key, Option.Rel Same (find? members key) (find? others key) := by
  constructor
  · rintro (_ | _ | _ | _ | _ | h)
    exact h
  · exact .object

/-- The first members have the same key, and it does not come again. -/
theorem Same.of_cons {key value other members others}
    (h : Same (.object ((key, value) :: members)) (.object ((key, other) :: others)))
    (hmembers : find? members key = none) (hothers : find? others key = none) :
    Same value other ∧ Same (.object members) (.object others) := by
  rw [same_object] at h
  refine ⟨by simpa [find?_cons] using h key, .object fun found => ?_⟩
  by_cases hfound : found = key
  · rw [hfound, hmembers, hothers]
    exact .none
  · simpa [find?_cons, hfound] using h found

/-- **A value reads the same as itself.** -/
theorem Same.refl : ∀ value : Json, Same value value
  | .null => .null
  | .bool value => .bool value
  | .number value => .number value
  | .string value => .string value
  | .array items => by
      refine .array (List.forall₂_same.mpr fun item hitem => ?_)
      have hlt : sizeOf item < sizeOf items := List.sizeOf_lt_of_mem hitem
      exact Same.refl item
  | .object members => by
      refine .object fun key => ?_
      cases hfound : find? members key with
      | none => exact .none
      | some value =>
        have hmember : sizeOf (key, value) < sizeOf members :=
          List.sizeOf_lt_of_mem (mem_of_find? hfound)
        have hlt : sizeOf value < sizeOf members := by
          rw [Prod.mk.sizeOf_spec] at hmember
          omega
        exact .some (Same.refl value)
termination_by value => sizeOf value
decreasing_by
  all_goals
    simp_wf
    omega

/-! ### Things told apart by their values -/

/-- Those that satisfy `P` are told apart by their values. -/
def Told {α : Type} (P : α → Prop) (value : α → Json) : Prop :=
  ∀ ⦃item other⦄, P item → P other → Same (value item) (value other) → item = other

section Told

variable {α : Type} {value : α → Json} {P : α → Prop} (htold : Told P value)
include htold

theorem eq_of_rel_same {item other : Option α} (hitem : ∀ thing ∈ item, P thing)
    (hother : ∀ thing ∈ other, P thing)
    (h : Option.Rel Same (item.map value) (other.map value)) : item = other := by
  cases item with
  | none =>
    cases other with
    | none => rfl
    | some thing => cases h
  | some thing =>
    cases other with
    | none => cases h
    | some thing' =>
      obtain ⟨hsame⟩ := h
      rw [htold (hitem thing rfl) (hother thing' rfl) hsame]

theorem Told.array :
    Told (fun items => ∀ item ∈ items, P item) (.array <| List.map value ·) := by
  intro items others hitems hothers h
  rw [same_array, List.forall₂_map_left_iff, List.forall₂_map_right_iff] at h
  induction h with
  | nil => rfl
  | cons hsame _ ih =>
    rw [List.forall_mem_cons] at hitems hothers
    rw [htold hitems.1 hothers.1 hsame, ih hitems.2 hothers.2]

end Told

end Xdr.Json
