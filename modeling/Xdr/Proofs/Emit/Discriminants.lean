import Xdr.Emit.Resolve

/-!
# The discriminant of a union as an integer

A discriminant is followed through type definitions, which open one
component each, up to a type that can select an arm.  What comes of that is
stated by the chain of type definitions alone.

## Main Statements

* `Bundle.keyDepth_eq_ok`, `Bundle.keyDepth_eq_unknown` — what a bounded
  walk finds
* `Bundle.exists_aliases_iff` — the end of a chain can be computed
* `Bundle.keyText_eq_iff_aliases` — every outcome, for every bundle

## Design Notes

The chain knows of no bound.  One that comes back to where it was has every
length, so the bound is what ends it.
-/

namespace Xdr.Bundle

open Nat TypeRef

/-- Type definitions of single values lead from a type to another, in so
many hops. -/
inductive Aliases (bundle : Bundle) : Nat → TypeRef → TypeRef → Prop where
  | here (type : TypeRef) : Aliases bundle 0 type type
  | hop {hops name target} {last : TypeRef}
      (h : bundle.resolve? name = some (.typeDef target)) (hplain : target.form = .plain)
      (hlast : Aliases bundle hops target.type last) :
      Aliases bundle (hops + 1) (.named name) last

/-- The values of a type can select an arm: those of integers, booleans and
declared enumerations. -/
def Selects (bundle : Bundle) (type : TypeRef) : Prop :=
  type ∈ [.int, .uint, .hyper, .uhyper, .bool] ∨
    ∃ name decl, type = .named name ∧ bundle.resolve? name = some (.enum decl)

/-- A type that is not defined as a single value of another. -/
def Final (bundle : Bundle) (type : TypeRef) : Prop :=
  ∀ name target, type = .named name → bundle.resolve? name = some (.typeDef target) →
    target.form ≠ .plain

/-- The type that type definitions of single values lead to, of which at
most `hops` are followed. -/
def opened (bundle : Bundle) : Nat → TypeRef → TypeRef
  | hops + 1, .named name =>
    match bundle.resolve? name with
    | some (.typeDef target) =>
      if target.form = .plain then opened bundle hops target.type else .named name
    | _ => .named name
  | _, type => type

variable {bundle : Bundle} {hops limit : Nat} {type last : TypeRef}

/-! ### Ends of chains -/

theorem Selects.final (h : bundle.Selects type) : bundle.Final type := by
  rintro name target rfl htarget
  rcases h with h | ⟨other, decl, heq, hdecl⟩
  · simp at h
  · cases heq
    cases htarget.symm.trans hdecl

theorem final_of_resolve?_eq_none {name} (h : bundle.resolve? name = none) :
    bundle.Final (.named name) := by
  intro other target heq htarget
  cases heq
  cases h.symm.trans htarget

theorem aliases_opened (hops : Nat) (type : TypeRef) :
    ∃ steps ≤ hops, bundle.Aliases steps type (bundle.opened hops type) := by
  fun_induction opened bundle hops type with
  | case1 hops name target htarget hplain ih =>
    obtain ⟨steps, hle, hlast⟩ := ih
    exact ⟨steps + 1, succ_le_succ hle, .hop htarget hplain hlast⟩
  | case2 | case3 | case4 => exact ⟨0, zero_le _, .here _⟩

theorem Final.opened_eq (h : bundle.Final last) (limit : Nat) :
    bundle.opened limit last = last := by
  fun_cases opened bundle limit last with
  | case1 hops name target htarget hplain => exact absurd hplain (h name target rfl htarget)
  | case2 | case3 | case4 => rfl

theorem Aliases.opened_eq (h : bundle.Aliases hops type last) (hfinal : bundle.Final last)
    (hle : hops ≤ limit) : bundle.opened limit type = last := by
  induction h generalizing limit with
  | here type => exact hfinal.opened_eq limit
  | hop h hplain _ ih =>
    obtain ⟨more, rfl⟩ := Nat.exists_eq_add_of_lt (Nat.lt_of_succ_le hle)
    rw [opened]
    simp only [h, hplain, if_true]
    exact ih hfinal (le_add_right _ _)

/-- **The end of a chain can be computed**, if a chain ends where it is met.
-/
theorem exists_aliases_iff {P : TypeRef → Prop}
    (hfinal : ∀ {last}, P last → bundle.Final last) :
    (∃ hops ≤ limit, ∃ last, bundle.Aliases hops type last ∧ P last) ↔
      P (bundle.opened limit type) := by
  constructor
  · rintro ⟨hops, hle, last, hlast, hmet⟩
    rwa [hlast.opened_eq (hfinal hmet) hle]
  · intro h
    obtain ⟨steps, hle, hlast⟩ := bundle.aliases_opened limit type
    exact ⟨steps, hle, _, hlast, h⟩

/-! ### The walk -/

namespace Aliases

/-- Each hop uses up one of the types that may be looked at. -/
theorem keyDepth (h : bundle.Aliases hops type last) (limit : Nat) :
    bundle.keyDepth (limit + hops) type = (bundle.keyDepth limit last).map (· + hops) := by
  induction h with
  | here type => cases bundle.keyDepth limit type <;> rfl
  | @hop hops name target last h hplain _ ih =>
    rw [← Nat.add_assoc, Bundle.keyDepth]
    simp only [primitive?, h, hplain, if_true, ih]
    cases bundle.keyDepth limit last <;> rfl

/-- A walk ends where no more types may be looked at. -/
theorem keyDepth_of_le (h : bundle.Aliases hops type last) (hle : limit ≤ hops) :
    bundle.keyDepth limit type = .error .invalid := by
  induction h generalizing limit with
  | here type =>
    obtain rfl := le_zero.mp hle
    rfl
  | hop h hplain _ ih =>
    cases limit with
    | zero => rfl
    | succ limit =>
      rw [Bundle.keyDepth]
      simp only [primitive?, h, hplain, if_true, ih (le_of_succ_le_succ hle)]
      rfl

/-- A circle is gone round until then. -/
theorem keyDepth_of_circle (h : bundle.Aliases (hops + 1) type type) (limit : Nat) :
    bundle.keyDepth limit type = .error .invalid := by
  induction limit using Nat.strongRecOn with
  | ind limit ih =>
    rcases Nat.le_total limit (hops + 1) with hle | hle
    · exact h.keyDepth_of_le hle
    · obtain ⟨left, rfl⟩ := Nat.exists_eq_add_of_le' hle
      rw [h.keyDepth left, ih left (by omega)]
      rfl

end Aliases

theorem Selects.keyDepth (h : bundle.Selects type) (limit : Nat) :
    bundle.keyDepth (limit + 1) type = .ok 0 := by
  rcases h with h | ⟨name, decl, rfl, hdecl⟩
  · simp only [List.mem_cons, List.not_mem_nil, or_false] at h
    rcases h with rfl | rfl | rfl | rfl | rfl <;> rfl
  · rw [Bundle.keyDepth]
    simp only [primitive?, hdecl]

/-- Whatever a walk finds was met on the way. -/
theorem keyDepth_cases (limit : Nat) (type : TypeRef) :
    (∃ hops < limit, bundle.keyDepth limit type = .ok hops ∧
      ∃ last, bundle.Aliases hops type last ∧ bundle.Selects last) ∨
    (∃ name, bundle.keyDepth limit type = .error (.unknown name) ∧
      ∃ hops < limit, bundle.Aliases hops type (.named name) ∧ bundle.resolve? name = none) ∨
    bundle.keyDepth limit type = .error .invalid := by
  fun_induction keyDepth bundle limit type with
  | case1 | case3 | case6 | case7 | case9 => exact .inr (.inr rfl)
  | case2 limit type primitive hprimitive hintegral =>
    refine .inl ⟨0, limit.succ_pos, rfl, type, .here type, .inl ?_⟩
    cases type <;> cases hprimitive <;> first | decide | cases hintegral
  | case4 limit name decl hdecl =>
    exact .inl ⟨0, limit.succ_pos, rfl, _, .here _, .inr ⟨name, decl, rfl, hdecl⟩⟩
  | case5 limit name target htarget hplain _ ih =>
    rcases ih with ⟨hops, hlt, hdepth, last, hlast, hselects⟩ |
      ⟨found, hdepth, hops, hlt, hlast, hnone⟩ | hdepth <;>
      rw [hdepth]
    · exact .inl ⟨hops + 1, succ_lt_succ hlt, rfl, last, .hop htarget hplain hlast, hselects⟩
    · exact .inr (.inl ⟨found, rfl, hops + 1, succ_lt_succ hlt,
        .hop htarget hplain hlast, hnone⟩)
    · exact .inr (.inr rfl)
  | case8 limit name hnone => exact .inr (.inl ⟨name, rfl, 0, limit.succ_pos, .here _, hnone⟩)

theorem keyDepth_eq_ok : bundle.keyDepth (limit + 1) type = .ok hops ↔
    hops ≤ limit ∧ ∃ last, bundle.Aliases hops type last ∧ bundle.Selects last := by
  constructor
  · intro h
    rcases bundle.keyDepth_cases (limit + 1) type with ⟨_, hlt, hdepth, hmet⟩ |
      ⟨_, hdepth, -⟩ | hdepth <;>
      cases h.symm.trans hdepth
    exact ⟨le_of_lt_succ hlt, hmet⟩
  · rintro ⟨hle, last, hlast, hselects⟩
    obtain ⟨left, rfl⟩ := Nat.exists_eq_add_of_le' hle
    rw [Nat.add_right_comm, hlast.keyDepth, hselects.keyDepth, Except.map, Nat.zero_add]

theorem keyDepth_eq_unknown {name} :
    bundle.keyDepth (limit + 1) type = .error (.unknown name) ↔
    ∃ hops ≤ limit, bundle.Aliases hops type (.named name) ∧ bundle.resolve? name = none := by
  constructor
  · intro h
    rcases bundle.keyDepth_cases (limit + 1) type with ⟨_, _, hdepth, -⟩ |
      ⟨_, hdepth, hops, hlt, hmet⟩ | hdepth <;>
      cases h.symm.trans hdepth
    exact ⟨hops, le_of_lt_succ hlt, hmet⟩
  · rintro ⟨hops, hle, hlast, hnone⟩
    obtain ⟨left, rfl⟩ := Nat.exists_eq_add_of_le' hle
    rw [Nat.add_right_comm, hlast.keyDepth, Bundle.keyDepth]
    simp only [primitive?, hnone, Except.map]

/-- A walk finds nothing if it meets nothing. -/
theorem keyDepth_eq_invalid : bundle.keyDepth (limit + 1) type = .error .invalid ↔
    ¬ ∃ hops ≤ limit, ∃ last, bundle.Aliases hops type last ∧
      (bundle.Selects last ∨ ∃ name, last = .named name ∧ bundle.resolve? name = none) := by
  constructor
  · rintro h ⟨hops, hle, last, hlast, hselects | ⟨name, rfl, hnone⟩⟩
    · cases h.symm.trans (keyDepth_eq_ok.mpr ⟨hle, last, hlast, hselects⟩)
    · cases h.symm.trans (keyDepth_eq_unknown.mpr ⟨hops, hle, hlast, hnone⟩)
  · intro h
    rcases bundle.keyDepth_cases (limit + 1) type with ⟨hops, hlt, -, last, hlast, hselects⟩ |
      ⟨name, -, hops, hlt, hlast, hnone⟩ | hdepth
    · exact absurd ⟨hops, le_of_lt_succ hlt, last, hlast, .inl hselects⟩ h
    · exact absurd ⟨hops, le_of_lt_succ hlt, _, hlast, .inr ⟨name, rfl, hnone⟩⟩ h
    · exact hdepth

/-! ### The expression -/

/-- **Every outcome of a discriminant.**  It becomes an integer if and only
if at most 31 type definitions lead to a type that can select an arm, and
then each of them opens one component.  If they lead to a name that is not
declared, this is reported, and in every other case the type that the
discriminant was given.  Such a case is a circle of type definitions. -/
theorem keyText_eq_iff_aliases (bundle : Bundle) (type : TypeRef) (place union : String) :
    (∀ text, bundle.keyText type place union = .ok text ↔
      ∃ hops ≤ 31, ∃ last, bundle.Aliases hops type last ∧ bundle.Selects last ∧
        text = place ++ String.join (List.replicate hops ".0") ++ " as i64") ∧
    (∀ name context, bundle.keyText type place union = .error (.unknownType name context) ↔
      context = union ∧ ∃ hops ≤ 31,
        bundle.Aliases hops type (.named name) ∧ bundle.resolve? name = none) ∧
    (bundle.keyText type place union = .error (.invalidDiscriminant union type.text) ↔
      ¬ ∃ hops ≤ 31, ∃ last, bundle.Aliases hops type last ∧
        (bundle.Selects last ∨ ∃ name, last = .named name ∧ bundle.resolve? name = none)) ∧
    ∀ hops more last, bundle.Aliases hops type last → bundle.Aliases (more + 1) last last →
      bundle.keyText type place union = .error (.invalidDiscriminant union type.text) := by
  have hlimit : maxAliases = 31 + 1 := rfl
  unfold keyText
  rw [hlimit, ← keyDepth_eq_invalid]
  refine ⟨fun text => ⟨fun h => ?_, ?_⟩, fun name context => ⟨fun h => ?_, ?_⟩,
    ⟨fun h => ?_, fun h => ?_⟩, ?_⟩
  · split at h <;> cases h
    next hops hdepth =>
      obtain ⟨hle, last, hlast, hselects⟩ := keyDepth_eq_ok.mp hdepth
      exact ⟨hops, hle, last, hlast, hselects, rfl⟩
  · rintro ⟨hops, hle, last, hlast, hselects, rfl⟩
    rw [keyDepth_eq_ok.mpr ⟨hle, last, hlast, hselects⟩]
  · split at h <;> cases h
    next hdepth => exact ⟨rfl, keyDepth_eq_unknown.mp hdepth⟩
  · rintro ⟨rfl, hmet⟩
    rw [keyDepth_eq_unknown.mpr hmet]
  · split at h <;> cases h
    assumption
  · rw [h]
  · intro hops more last hlast hcircle
    rcases Nat.le_total (31 + 1) hops with hle | hle
    · rw [hlast.keyDepth_of_le hle]
    · obtain ⟨left, hleft⟩ := Nat.exists_eq_add_of_le' hle
      rw [hleft, hlast.keyDepth, hcircle.keyDepth_of_circle]
      rfl

/-- A type that is defined as itself. -/
def selfDefined : Bundle :=
  ⟨[], [], [], [], [⟨"t", .named "t", .plain⟩], []⟩

theorem keyText_selfDefined :
    selfDefined.keyText (.named "t") "self.tag" "u" = .error (.invalidDiscriminant "u" "t") :=
  (keyText_eq_iff_aliases selfDefined (.named "t") "self.tag" "u").2.2.2 0 0 _ (.here _)
    (.hop rfl rfl (.here _))

end Xdr.Bundle
