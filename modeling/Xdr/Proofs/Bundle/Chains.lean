import Mathlib.Data.List.Perm.Subperm
import Xdr.Proofs.Bundle.Numbers
import Xdr.Proofs.Numeral.Value

/-!
# Chains of names

Following names from an expression, each to its first definition, ends at a
literal, ends at a name that is not defined, or never ends.  As there are
finitely many definitions, it never ends only if some name leads back to
itself.  Evaluation follows at most `maxSteps` names.  So it finds every
literal that is near enough, and what it does not find is undefined,
circular, no integer of 64 bits, or too far away.

## Main Statements

* `Bundle.circular_of_follows` — more steps than there are definitions go
  round in a circle
* `Bundle.exists_ending` — how following names ends
* `Bundle.not_circular_of_follows` — what goes round in a circle leads to no
  literal
* `Bundle.evaluateWithin_eq_some`, `Bundle.evaluate_eq_some` — the values
  that evaluation finds
* `Bundle.evaluate_spec` — what is evaluated, and what is not

## Design Notes

Steps are counted, and for any count at most one expression is reached.  So
two chains from one expression are compared by their lengths: none is longer
than one that ends.
-/

namespace Xdr.Bundle

open List Nat Numeral Option

variable {bundle : Bundle} {steps more : Nat} {expr middle last : IntExpr} {text : String}

/-! ### Steps -/

/-- The expression that is reached from another in so many steps. -/
def follow? (bundle : Bundle) : Nat → IntExpr → Option IntExpr
  | 0, expr => some expr
  | _ + 1, .literal _ => none
  | steps + 1, .name name =>
    (bundle.definitionsOf name).head?.bind fun first => follow? bundle steps first.value

theorem follows_iff :
    bundle.Follows steps expr last ↔ bundle.follow? steps expr = some last := by
  constructor
  · intro h
    induction h with
    | refl expr => rfl
    | step hfirst _ ih => rw [follow?, hfirst, bind_some, ih]
  · intro h
    induction steps generalizing expr with
    | zero =>
      cases h
      exact .refl _
    | succ steps ih =>
      cases expr with
      | literal text => cases h
      | name name =>
        obtain ⟨first, hfirst, hrest⟩ := bind_eq_some_iff.mp h
        exact .step hfirst (ih hrest)

instance : Decidable (bundle.Follows steps expr last) :=
  decidable_of_iff _ follows_iff.symm

namespace Follows

theorem unique {other} (h : bundle.Follows steps expr last)
    (h' : bundle.Follows steps expr other) : last = other :=
  some.inj ((follows_iff.mp h).symm.trans (follows_iff.mp h'))

theorem trans (h : bundle.Follows steps expr middle) (h' : bundle.Follows more middle last) :
    bundle.Follows (more + steps) expr last := by
  induction h with
  | refl expr => exact h'
  | step hfirst _ ih => exact .step hfirst (ih h')

/-- On the way there is an expression after any smaller number of steps. -/
theorem exists_between (h : bundle.Follows (more + steps) expr last) :
    ∃ middle, bundle.Follows steps expr middle ∧ bundle.Follows more middle last := by
  induction steps generalizing expr with
  | zero => exact ⟨expr, .refl _, h⟩
  | succ steps ih =>
    cases h with
    | step hfirst hrest =>
      obtain ⟨middle, hfront, hback⟩ := ih hrest
      exact ⟨middle, .step hfirst hfront, hback⟩

/-- The names that are gone through, one for each step. -/
theorem exists_names (h : bundle.Follows steps expr last) :
    ∃ names : List String,
    names.length = steps ∧ (∀ name ∈ names, bundle.definitionsOf name ≠ []) ∧
      ∀ index name, names[index]? = some name → bundle.Follows index expr (.name name) := by
  induction h with
  | refl expr => exact ⟨[], rfl, by simp, by simp⟩
  | @step name first steps last hfirst _ ih =>
    obtain ⟨names, hlength, hdefined, hreach⟩ := ih
    refine ⟨name :: names, by rw [length_cons, hlength], ?_, fun index other hother => ?_⟩
    · refine forall_mem_cons.mpr ⟨fun hnil => ?_, hdefined⟩
      rw [hnil] at hfirst
      cases hfirst
    · cases index with
      | zero =>
        cases hother
        exact .refl _
      | succ index => exact .step hfirst (hreach index other hother)

end Follows

/-! ### Circles -/

/-- Following names from an expression leads to a name that is not defined. -/
def LeadsNowhere (bundle : Bundle) (expr : IntExpr) : Prop :=
  ∃ steps name, bundle.Follows steps expr (.name name) ∧ bundle.definitionsOf name = []

/-- Following names from an expression leads to a name that leads back to
itself. -/
def Circular (bundle : Bundle) (expr : IntExpr) : Prop :=
  ∃ steps name round, bundle.Follows steps expr (.name name) ∧
    bundle.Follows (round + 1) (.name name) (.name name)

/-- **More steps than there are definitions** go round in a circle. -/
theorem circular_of_follows (h : bundle.Follows steps expr last)
    (hlt : bundle.definitions.length < steps) : bundle.Circular expr := by
  obtain ⟨names, hlength, hdefined, hreach⟩ := h.exists_names
  have hsub : names ⊆ bundle.definitions.map fun definition => definition.reference.name := by
    intro name hname
    obtain ⟨definition, hdefinition⟩ := exists_mem_of_ne_nil _ (hdefined name hname)
    obtain ⟨hmem, hsame⟩ := mem_definitionsOf.mp hdefinition
    exact mem_map.mpr ⟨definition, hmem, hsame⟩
  -- Two of the names are the same, as there are more of them than definitions.
  have hrepeat : ¬ names.Nodup := by
    intro hnodup
    have hle := (hnodup.subperm hsub).length_le
    rw [length_map] at hle
    omega
  rw [nodup_iff_getElem?_ne_getElem?] at hrepeat
  push Not at hrepeat
  obtain ⟨first, second, hless, hbound, hsame⟩ := hrepeat
  obtain ⟨name, hname⟩ : ∃ name, names[second]? = some name := ⟨_, getElem?_eq_getElem hbound⟩
  have hearlier := hreach first name (hsame.trans hname)
  obtain ⟨round, rfl⟩ : ∃ round, second = round + 1 + first := ⟨second - first - 1, by omega⟩
  obtain ⟨middle, hfront, hback⟩ := (hreach _ name hname).exists_between
  rw [hfront.unique hearlier] at hback
  exact ⟨first, name, round, hearlier, hback⟩

/-- **How following names ends**, if it does. -/
theorem exists_ending (bundle : Bundle) (expr : IntExpr) :
    (∃ steps text, bundle.Follows steps expr (.literal text)) ∨ bundle.LeadsNowhere expr ∨
      bundle.Circular expr := by
  by_cases hdefined : ∀ steps name, bundle.Follows steps expr (.name name) →
    bundle.definitionsOf name ≠ []
  · rcases exists_follows hdefined (bundle.definitions.length + 1)
      with ⟨steps, -, text, h⟩ | ⟨name, h⟩
    · exact .inl ⟨steps, text, h⟩
    · exact .inr (.inr (circular_of_follows h (lt_succ_self _)))
  · push Not at hdefined
    obtain ⟨steps, name, h, hnil⟩ := hdefined
    exact .inr (.inl ⟨steps, name, h, hnil⟩)

/-- A chain that ends is at least as long as any other. -/
theorem Follows.le_of_ends {limit} (h : bundle.Follows limit expr last)
    (hends : ∀ more other, ¬ bundle.Follows (more + 1) last other) {other}
    (h' : bundle.Follows steps expr other) : steps ≤ limit := by
  by_contra hlt
  obtain ⟨more, rfl⟩ : ∃ more, steps = more + 1 + limit := ⟨steps - limit - 1, by omega⟩
  obtain ⟨middle, hfront, hback⟩ := h'.exists_between
  rw [hfront.unique h] at hback
  exact hends more other hback

theorem not_follows_literal (more : Nat) (other : IntExpr) :
    ¬ bundle.Follows (more + 1) (.literal text) other := by
  intro h
  cases h

theorem not_follows_undefined {name} (h : bundle.definitionsOf name = []) (more : Nat)
    (other : IntExpr) : ¬ bundle.Follows (more + 1) (.name name) other := by
  intro hfollows
  cases hfollows with
  | step hfirst _ =>
    rw [h] at hfirst
    cases hfirst

/-- There is one literal at most that an expression leads to, and one way to
it. -/
theorem Follows.literal_unique {other text'} (h : bundle.Follows steps expr (.literal text))
    (h' : bundle.Follows other expr (.literal text')) : steps = other ∧ text = text' := by
  obtain rfl : steps = other :=
    le_antisymm (h'.le_of_ends not_follows_literal h) (h.le_of_ends not_follows_literal h')
  exact ⟨rfl, IntExpr.literal.inj (h.unique h')⟩

/-- A circle can be gone through any number of times. -/
theorem Follows.rounds {name round} (h : bundle.Follows (round + 1) (.name name) (.name name))
    (times : Nat) : ∃ steps ≥ times, bundle.Follows steps (.name name) (.name name) := by
  induction times with
  | zero => exact ⟨0, le_refl _, .refl _⟩
  | succ times ih =>
    obtain ⟨steps, hle, hsteps⟩ := ih
    exact ⟨round + 1 + steps, by omega, hsteps.trans h⟩

/-- **What goes round in a circle leads to no literal.** -/
theorem not_circular_of_follows (h : bundle.Follows steps expr (.literal text)) :
    ¬ bundle.Circular expr := by
  rintro ⟨reach, name, round, hreach, hround⟩
  obtain ⟨more, hmore, hrounds⟩ := hround.rounds (steps + 1)
  have hle := h.le_of_ends not_follows_literal (hreach.trans hrounds)
  omega

/-- No literal is further away than there are definitions. -/
theorem Follows.le_length_definitions (h : bundle.Follows steps expr (.literal text)) :
    steps ≤ bundle.definitions.length := by
  by_contra hlt
  exact not_circular_of_follows h (circular_of_follows h (Nat.lt_of_not_le hlt))

/-- A name that is not defined leads to no literal. -/
theorem not_leadsNowhere_of_follows (h : bundle.Follows steps expr (.literal text)) :
    ¬ bundle.LeadsNowhere expr := by
  rintro ⟨reach, name, hreach, hnil⟩
  have hle := h.le_of_ends not_follows_literal hreach
  have hge := hreach.le_of_ends (not_follows_undefined hnil) h
  obtain rfl : steps = reach := by omega
  cases h.unique hreach

/-! ### Evaluation -/

/-- **The values that evaluation finds** are those of the literals that are
near enough. -/
theorem evaluateWithin_eq_some {limit : Nat} {value : Int} :
    bundle.evaluateWithin limit expr = some value ↔
      ∃ steps ≤ limit, ∃ text, bundle.Follows steps expr (.literal text) ∧
        value? text.toList = some value := by
  constructor
  · intro h
    induction limit generalizing expr with
    | zero =>
      cases expr with
      | literal text => exact ⟨0, le_refl _, text, .refl _, h⟩
      | name name => cases h
    | succ limit ih =>
      cases expr with
      | literal text => exact ⟨0, zero_le _, text, .refl _, h⟩
      | name name =>
        rw [evaluateWithin_name, bind_eq_some_iff] at h
        obtain ⟨first, hfirst, hvalue⟩ := h
        obtain ⟨steps, hle, text, hfollows, htext⟩ := ih hvalue
        exact ⟨steps + 1, succ_le_succ hle, text, .step hfirst hfollows, htext⟩
  · rintro ⟨steps, hle, text, hfollows, htext⟩
    rw [evaluateWithin_of_follows hfollows hle, htext]

/-- **What is evaluated**: a literal that is near enough and stands for an
integer of 64 bits. -/
theorem evaluate_eq_some {value : Int} :
    bundle.evaluate expr = some value ↔ ∃ steps ≤ maxSteps, ∃ text,
    bundle.Follows steps expr (.literal text) ∧ StandsFor text.toList value ∧ Fits value := by
  simp only [evaluate, evaluateWithin_eq_some, value?_eq_some]

/-- **What is evaluated, and what is not.**  An expression is evaluated to
an integer if and only if following its names leads to a literal in at most
`maxSteps` steps that stands for that integer, and it has 64 bits.  It is
not evaluated if and only if it leads to a name that is not defined, or
round in a circle, or to a literal that stands for no integer of 64 bits, or
to a literal that is further away than `maxSteps`, which takes as many
definitions. -/
theorem evaluate_spec (bundle : Bundle) (expr : IntExpr) :
    (∀ value, bundle.evaluate expr = some value ↔ ∃ steps ≤ maxSteps, ∃ text,
      bundle.Follows steps expr (.literal text) ∧ Numeral.StandsFor text.toList value ∧
      Numeral.Fits value) ∧
    (bundle.evaluate expr = none ↔ bundle.LeadsNowhere expr ∨ bundle.Circular expr ∨
      (∃ steps text, bundle.Follows steps expr (.literal text) ∧
        ∀ value, Numeral.StandsFor text.toList value → ¬ Numeral.Fits value) ∨
      ∃ steps > maxSteps, ∃ text, bundle.Follows steps expr (.literal text)) ∧
    ∀ steps text, bundle.Follows steps expr (.literal text) →
      steps ≤ bundle.definitions.length := by
  refine ⟨fun value => evaluate_eq_some, ⟨?_, ?_⟩,
    fun steps text h => h.le_length_definitions⟩
  · intro hnone
    rcases exists_ending bundle expr with ⟨steps, text, hfollows⟩ | hnowhere | hcircular
    · refine .inr (.inr ?_)
      by_cases hnear : steps ≤ maxSteps
      · refine .inl ⟨steps, text, hfollows, fun value hstands hfits => ?_⟩
        have hsome := evaluate_eq_some.mpr ⟨steps, hnear, text, hfollows, hstands, hfits⟩
        cases hnone.symm.trans hsome
      · exact .inr ⟨steps, Nat.lt_of_not_le hnear, text, hfollows⟩
    · exact .inl hnowhere
    · exact .inr (.inl hcircular)
  · intro hreason
    rw [Option.eq_none_iff_forall_ne_some]
    intro value hvalue
    -- Each reason is at odds with the literal that was evaluated.
    obtain ⟨steps, hnear, text, hfollows, hstands, hfits⟩ := evaluate_eq_some.mp hvalue
    rcases hreason with hnowhere | hcircular | ⟨other, text', hother, hnever⟩ |
      ⟨other, hfar, text', hother⟩
    · exact not_leadsNowhere_of_follows hfollows hnowhere
    · exact not_circular_of_follows hfollows hcircular
    · obtain ⟨-, rfl⟩ := hfollows.literal_unique hother
      exact hnever value hstands hfits
    · obtain ⟨rfl, -⟩ := hfollows.literal_unique hother
      exact Nat.not_lt.mpr hnear hfar

/-- Constants each of which is given by the one before it, and the first of
which is seven. -/
def longChain : Bundle where
  consts := ⟨"C0", .literal "7"⟩ :: (range maxSteps).map fun index =>
    ⟨"C" ++ toString (index + 1), .name ("C" ++ toString index)⟩
  enums := []
  structs := []
  unions := []
  typedefs := []
  programs := []

/-- The last constant leads to seven through all the others, and is not
evaluated. -/
theorem evaluate_longChain :
    longChain.Follows (maxSteps + 1) (.name "C32") (.literal "7") ∧
      Numeral.StandsFor "7".toList 7 ∧ Numeral.Fits 7 ∧
      longChain.evaluate (.name "C32") = none := by
  have hfollows : longChain.Follows (maxSteps + 1) (.name "C32") (.literal "7") := by
    decide +kernel
  have hseven := Numeral.value?_eq_some.mp (show Numeral.value? "7".toList = some 7 by decide)
  refine ⟨hfollows, hseven.1, hseven.2, (evaluate_spec longChain _).2.1.mpr ?_⟩
  exact .inr (.inr (.inr ⟨maxSteps + 1, Nat.lt_succ_self _, "7", hfollows⟩))

end Xdr.Bundle
