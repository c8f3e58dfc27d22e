import Xdr.Proofs.Schema.Structural

/-!
# The keys that are looked at

What an object stands for depends on the values of some of its keys and on
nothing else: neither on the order of the keys, nor on other keys, however
deep their values are.

## Main Statements

* `Schema.ofJsonNamed_congr` — any count of names above the depth of a value
  gives the same
* `Schema.ofJson_object` — an object is read with any such count
* `Schema.ofJson_record`, `Schema.ofJson_record_congr` — a record is read
  from the keys of its fields, and depends on nothing else
* `Schema.ofJson_union`, `Schema.ofJson_union_congr` — a union is read from
  the key of its discriminant and that of the selected arm, and depends on
  nothing else

## Design Notes

The reader counts the names it goes through, and starts with the depth of
its input.  Objects with other keys may differ in depth, so they are
compared only after the count is shown not to matter.
-/

namespace Xdr

open Component Json Nat Value

/-! ### Counts of names -/

section Congruence

variable {named named' : String → Json → Except WireError Value}

/-- A type reads names at values that are no deeper than its own. -/
theorem Ty.ofJson_congr (type : Ty) {value : Json}
    (h : ∀ name inner, inner.depth ≤ value.depth → named name inner = named' name inner) :
    type.ofJson named value = type.ofJson named' value := by
  induction type generalizing value with
  | array item _ ih | fixedArray item _ ih =>
    cases value with
    | array items =>
      have hitems : items.mapM (item.ofJson named) = items.mapM (item.ofJson named') := by
        refine mapM_congr_mem fun inner hinner => ih fun name other hother => h name other ?_
        have hdepth := Json.depth_le_depthItems hinner
        rw [Json.depth]
        omega
      simp only [Ty.ofJson, Json.items, bind, Except.bind, hitems]
    | _ => rfl
  | optional item ih =>
    cases value with
    | null => rfl
    | _ => exact congrArg (Except.map present) (ih h)
  | named name => exact h name value (le_refl _)
  | _ => rfl

variable {members : Table Json}
  (h : ∀ name inner,
    inner.depth ≤ depthMembers members → named name inner = named' name inner)
include h

theorem Component.ofMembers_congr (default : Ty → Value) (field : Component) :
    field.ofMembers named default members = field.ofMembers named' default members := by
  rw [ofMembers, ofMembers]
  cases hfound : members.find? field.name with
  | none => rfl
  | some value =>
    have hdepth := depth_le_depthMembers hfound
    exact field.type.ofJson_congr fun name inner hinner => h name inner (hinner.trans hdepth)

theorem Component.armOfMembers_congr (arm : Component) :
    arm.armOfMembers named members = arm.armOfMembers named' members := by
  rw [armOfMembers, armOfMembers]
  cases hfound : members.find? arm.name with
  | none => rfl
  | some value =>
    have hdepth := depth_le_depthMembers hfound
    exact congrArg (Except.map present)
      (arm.type.ofJson_congr fun name inner hinner => h name inner (hinner.trans hdepth))

/-- A declaration reads names at values inside of an object. -/
theorem TypeDef.ofJson_congr (default : Ty → Value) (name : String) (decl : TypeDef) :
    decl.ofJson named default name (.object members) =
      decl.ofJson named' default name (.object members) := by
  cases decl with
  | enumeration decl => rfl
  | record fields =>
    have hfields : fields.mapM (ofMembers named default members) =
        fields.mapM (ofMembers named' default members) :=
      mapM_congr_mem fun field _ => field.ofMembers_congr h default
    simp only [TypeDef.ofJson, Json.members, bind, Except.bind, hfields]
  | union decl =>
    have harm : ∀ arm : Component,
      arm.armOfMembers named members = arm.armOfMembers named' members :=
      fun arm => arm.armOfMembers_congr h
    simp only [TypeDef.ofJson, Json.members, bind, Except.bind, UnionDef.ofMembers,
      decl.tag.ofMembers_congr h default, harm]

end Congruence

namespace Schema

variable {schema : Schema} {limit : Nat} {decl : UnionDef}

/-- **Any count of names above the depth of a value** gives the same. -/
theorem ofJsonNamed_congr {limit' : Nat} (name : String) {value : Json}
    (hlimit : value.depth < limit) (hlimit' : value.depth < limit') :
    schema.ofJsonNamed limit name value = schema.ofJsonNamed limit' name value := by
  induction limit generalizing limit' name value with
  | zero => exact absurd hlimit (not_lt_zero _)
  | succ limit ih =>
    cases limit' with
    | zero => exact absurd hlimit' (not_lt_zero _)
    | succ limit' =>
      rw [ofJsonNamed, ofJsonNamed]
      cases schema.find? name with
      | none => rfl
      | some decl =>
        cases value with
        | object members =>
          rw [depth] at hlimit hlimit'
          exact decl.ofJson_congr (fun name inner hinner => ih name (by omega) (by omega)) _ _
        | _ => cases decl <;> rfl

theorem ofJson_eq (type : Ty) {value : Json} (hlimit : value.depth < limit) :
    schema.ofJson type value = type.ofJson (schema.ofJsonNamed limit) value :=
  type.ofJson_congr fun name _ hinner =>
    ofJsonNamed_congr name (lt_succ_of_le hinner) (lt_of_le_of_lt hinner hlimit)

/-- An object is read with any count above the depth of its members. -/
theorem ofJson_object {name} {decl : TypeDef} (hdecl : schema.find? name = some decl)
    {members} (hlimit : depthMembers members < limit) :
    schema.ofJson (.named name) (.object members) =
      decl.ofJson (schema.ofJsonNamed limit) schema.default name (.object members) := by
  have hdepth : (object members).depth < limit + 1 := by
    rw [depth]
    omega
  rw [ofJson_eq _ hdepth, Ty.ofJson, ofJsonNamed, hdecl]

/-- A component is read as the field with its name. -/
theorem ofMembers_eq_field {members : Table Json} (hlimit : depthMembers members < limit)
    (component : Component) :
    component.ofMembers (schema.ofJsonNamed limit) schema.default members =
      schema.field members component.type component.name := by
  rw [ofMembers, field]
  cases hfound : members.find? component.name with
  | none => rfl
  | some value =>
    exact (ofJson_eq _ (lt_of_le_of_lt (depth_le_depthMembers hfound) hlimit)).symm

theorem armOfMembers_eq_arm {members : Table Json} (hlimit : depthMembers members < limit)
    (component : Component) :
    component.armOfMembers (schema.ofJsonNamed limit) members =
      (schema.arm members component.type component.name).map ofOption := by
  rw [armOfMembers, arm]
  cases hfound : members.find? component.name with
  | none => rfl
  | some value =>
    have hvalue : component.type.ofJson (schema.ofJsonNamed limit) value =
      schema.ofJson component.type value :=
      (ofJson_eq _ (lt_of_le_of_lt (depth_le_depthMembers hfound) hlimit)).symm
    simp only [hvalue]
    cases schema.ofJson component.type value <;> rfl

/-! ### Objects by their keys -/

variable {name : String} {members others : Table Json}

/-- **A record is read from the keys of its fields.** -/
theorem ofJson_record {fields : List Component}
    (hdecl : schema.find? name = some (.record fields)) :
    schema.ofJson (.named name) (.object members) =
      (fields.mapM fun field => schema.field members field.type field.name).map .record := by
  have hlimit : Json.depthMembers members < Json.depthMembers members + 1 := lt_succ_self _
  rw [ofJson_object hdecl hlimit]
  simp only [TypeDef.ofJson, Json.members, bind, Except.bind,
    funext (ofMembers_eq_field hlimit)]
  cases fields.mapM fun field => schema.field members field.type field.name <;> rfl

/-- The places of the arms of a union, of which the selected one is read
from its key. -/
def arms (schema : Schema) (members : Table Json) (decl : UnionDef) (tag : Value) :
    Except WireError (List Value) :=
  match decl.arms.find? fun component => some component.name == decl.select tag with
  | some component =>
    (schema.arm members component.type component.name).map fun held =>
      decl.place component.name (ofOption held)
  | none => .ok (decl.arms.map fun _ => .absent)

/-- **A union is read from the key of its discriminant**, and then from that
of the arm it selects. -/
theorem ofJson_union (hdecl : schema.find? name = some (.union decl)) :
    schema.ofJson (.named name) (.object members) =
      (schema.field members decl.tag.type decl.tag.name).bind fun tag =>
        (schema.arms members decl tag).map (.union tag) := by
  have hlimit : Json.depthMembers members < Json.depthMembers members + 1 := lt_succ_self _
  rw [ofJson_object hdecl hlimit]
  simp only [TypeDef.ofJson, Json.members, UnionDef.ofMembers, bind, Except.bind,
    ofMembers_eq_field hlimit, armOfMembers_eq_arm hlimit]
  cases schema.field members decl.tag.type decl.tag.name with
  | error error => rfl
  | ok tag =>
    simp only [arms]
    cases decl.arms.find? fun component => some component.name == decl.select tag with
    | none => rfl
    | some component =>
      cases harm : schema.arm members component.type component.name <;>
        simp only [harm] <;> rfl

theorem field_congr {key} (h : members.find? key = others.find? key) (type : Ty) :
    schema.field members type key = schema.field others type key := by
  rw [field, field, h]

/-- The places of the arms depend on the key of the selected one. -/
theorem arms_congr {tag}
    (h : ∀ arm, decl.select tag = some arm → members.find? arm = others.find? arm) :
    schema.arms members decl tag = schema.arms others decl tag := by
  rw [arms, arms]
  cases hfind : decl.arms.find? fun component => some component.name == decl.select tag with
  | none => rfl
  | some component =>
    have hfound := List.find?_some hfind
    have hselected : decl.select tag = some component.name := (beq_iff_eq.mp hfound).symm
    simp only [arm, h component.name hselected]

/-- **A record depends on the keys of its fields.** -/
theorem ofJson_record_congr {fields : List Component}
    (hdecl : schema.find? name = some (.record fields))
    (hkeys : ∀ field ∈ fields, members.find? field.name = others.find? field.name) :
    schema.ofJson (.named name) (.object members) =
      schema.ofJson (.named name) (.object others) := by
  rw [ofJson_record hdecl, ofJson_record hdecl,
    mapM_congr_mem fun field hfield => field_congr (hkeys field hfield) field.type]

/-- **A union depends on the key of its discriminant and that of the arm**
that the discriminant selects. -/
theorem ofJson_union_congr (hdecl : schema.find? name = some (.union decl))
    (htag : members.find? decl.tag.name = others.find? decl.tag.name)
    (harm : ∀ tag arm,
    schema.field members decl.tag.type decl.tag.name = .ok tag → decl.select tag = some arm →
      members.find? arm = others.find? arm) :
    schema.ofJson (.named name) (.object members) =
      schema.ofJson (.named name) (.object others) := by
  rw [ofJson_union hdecl, ofJson_union hdecl, ← field_congr htag]
  cases hread : schema.field members decl.tag.type decl.tag.name with
  | error error => rfl
  | ok tag =>
    exact congrArg (Except.map (union tag)) (arms_congr fun arm => harm tag arm hread)

end Schema
end Xdr
