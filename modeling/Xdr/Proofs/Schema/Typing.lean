import Mathlib.Data.List.Basic
import Xdr.Schema.Basic

/-!
# Typed values and stale arms

A union holds a place for every arm, and only the arm that its discriminant
selects counts.  What the other places hold is stale: it reaches neither
form of the value.

## Main Statements

* `Schema.HasType.clear_eq_self` — clearing keeps a settled value
* `Schema.select_clear` — clearing keeps the selected arm

## Design Notes

A typed value satisfies no limit: sequences have any length, also those
declared with a fixed one, and the selected arm of a union may be absent.
Such values exist, and cannot be written.
-/

namespace Xdr.Schema

open List Value

/-- The values of a type. -/
inductive HasType (schema : Schema) : Ty → Value → Prop
  | void : HasType schema .void .void
  | bool (value : Bool) : HasType schema .bool (.bool value)
  | int (value : Int32) : HasType schema .int (.int value)
  | uint (value : UInt32) : HasType schema .uint (.uint value)
  | hyper (value : Int64) : HasType schema .hyper (.hyper value)
  | uhyper (value : UInt64) : HasType schema .uhyper (.uhyper value)
  | float (bits : UInt32) : HasType schema .float (.float bits)
  | double (bits : UInt64) : HasType schema .double (.double bits)
  | text (limit : Option UInt32) (value : String) : HasType schema (.text limit) (.text value)
  | fixedText (length : UInt32) (value : String) :
    HasType schema (.fixedText length) (.text value)
  | bytes (limit : Option UInt32) (value : List UInt8) :
    HasType schema (.bytes limit) (.bytes value)
  | fixedBytes (length : UInt32) (value : List UInt8) :
      HasType schema (.fixedBytes length) (.bytes value)
  | array {item items} (limit : Option UInt32)
      (hitems : ∀ value ∈ items, HasType schema item value) :
      HasType schema (.array item limit) (.list items)
  | fixedArray {item items} (length : UInt32)
      (hitems : ∀ value ∈ items, HasType schema item value) :
      HasType schema (.fixedArray item length) (.list items)
  | absent (item : Ty) : HasType schema (.optional item) .absent
  | present {item value} (hvalue : HasType schema item value) :
      HasType schema (.optional item) (.present value)
  | member {name decl number} (hdecl : schema.find? name = some (.enumeration decl))
      (hmember : (decl.byNumber? number).isSome) :
      HasType schema (.named name) (.member number)
  | record {name fields} {values : List Value}
      (hdecl : schema.find? name = some (.record fields))
      (hlen : fields.length = values.length)
      (hfields : ∀ pair ∈ fields.zip values, HasType schema pair.1.type pair.2) :
      HasType schema (.named name) (.record values)
  | union {name decl tag} {held : List (Option Value)}
      (hdecl : schema.find? name = some (.union decl))
      (htag : HasType schema decl.tag.type tag) (hlen : decl.arms.length = held.length)
      (harms : ∀ pair ∈ decl.arms.zip held, ∀ value ∈ pair.2,
        HasType schema pair.1.type value) :
      HasType schema (.named name) (.union tag (held.map ofOption))

mutual

/-- A value in which the arms that are not selected are absent, at every
level. -/
def clear (schema : Schema) : Ty → Value → Value
  | .array item _, .list items => .list (clearItems schema item items)
  | .fixedArray item _, .list items => .list (clearItems schema item items)
  | .optional item, .present value => .present (clear schema item value)
  | .named name, .record values =>
    match schema.find? name with
    | some (.record fields) => .record (clearFields schema fields values)
    | _ => .record values
  | .named name, .union tag values =>
    match schema.find? name with
    | some (.union decl) =>
      .union (clear schema decl.tag.type tag)
        (clearArms schema (decl.select tag) decl.arms values)
    | _ => .union tag values
  | _, value => value

/-- The items of a list, each cleared. -/
def clearItems (schema : Schema) (item : Ty) : List Value → List Value
  | [] => []
  | value :: values => clear schema item value :: clearItems schema item values

/-- The fields of a record, each cleared. -/
def clearFields (schema : Schema) : List Component → List Value → List Value
  | field :: fields, value :: values =>
    clear schema field.type value :: clearFields schema fields values
  | _, values => values

/-- The arms of a union, of which only the selected one is kept. -/
def clearArms (schema : Schema) (selected : Option String) :
    List Component → List Value → List Value
  | component :: components, .present value :: values =>
    (if some component.name == selected then .present (clear schema component.type value)
      else .absent) :: clearArms schema selected components values
  | _ :: components, value :: values => value :: clearArms schema selected components values
  | _, values => values

end

mutual

/-- A value that holds no stale arm, at any level. -/
def settled (schema : Schema) : Ty → Value → Bool
  | .array item _, .list items => settledItems schema item items
  | .fixedArray item _, .list items => settledItems schema item items
  | .optional item, .present value => settled schema item value
  | .named name, .record values =>
    match schema.find? name with
    | some (.record fields) => settledFields schema fields values
    | _ => true
  | .named name, .union tag values =>
    match schema.find? name with
    | some (.union decl) =>
      settled schema decl.tag.type tag &&
        settledArms schema (decl.select tag) decl.arms values
    | _ => true
  | _, _ => true

/-- Items of which none holds a stale arm. -/
def settledItems (schema : Schema) (item : Ty) : List Value → Bool
  | [] => true
  | value :: values => settled schema item value && settledItems schema item values

/-- Fields of which none holds a stale arm. -/
def settledFields (schema : Schema) : List Component → List Value → Bool
  | field :: fields, value :: values =>
    settled schema field.type value && settledFields schema fields values
  | _, _ => true

/-- Arms of which only the selected one is there, and holds no stale arm
itself. -/
def settledArms (schema : Schema) (selected : Option String) :
    List Component → List Value → Bool
  | component :: components, .present value :: values =>
    some component.name == selected && settled schema component.type value &&
      settledArms schema selected components values
  | _ :: components, _ :: values => settledArms schema selected components values
  | _, _ => true

end

variable {schema : Schema}

/-! ### Clearing -/

/-- Clearing keeps the number by which a value selects an arm. -/
theorem selector?_clear (type : Ty) (value : Value) :
    (schema.clear type value).selector? = value.selector? := by
  rw [clear.eq_def]
  split
  · rfl
  · rfl
  · rfl
  · split <;> rfl
  · split <;> rfl
  · rfl

/-- Clearing the discriminant keeps the selected arm. -/
theorem select_clear (decl : UnionDef) (type : Ty) (tag : Value) :
    decl.select (schema.clear type tag) = decl.select tag := by
  rw [UnionDef.select, UnionDef.select, selector?_clear]

theorem clearItems_eq_map (item : Ty) (items : List Value) :
    schema.clearItems item items = items.map (schema.clear item) := by
  induction items with
  | nil => rfl
  | cons value values ih => rw [clearItems, ih, map_cons]

theorem settledItems_eq_all (item : Ty) (items : List Value) :
    schema.settledItems item items = items.all (schema.settled item) := by
  induction items with
  | nil => rfl
  | cons value values ih => rw [settledItems, ih, all_cons]

/-- An arm that is there is kept if it is selected. -/
theorem clearArms_some (selected : Option String) (component : Component)
    (components : List Component) (value : Value) (held : List (Option Value)) :
    schema.clearArms selected (component :: components) ((some value :: held).map ofOption) =
      (if some component.name == selected then .present (schema.clear component.type value)
        else .absent) :: schema.clearArms selected components (held.map ofOption) := by
  rw [map_cons, ofOption, clearArms]

theorem clearArms_none (selected : Option String) (component : Component)
    (components : List Component) (held : List (Option Value)) :
    schema.clearArms selected (component :: components) ((none :: held).map ofOption) =
      .absent :: schema.clearArms selected components (held.map ofOption) := by
  rw [map_cons, ofOption, clearArms]
  exact fun _ h => Value.noConfusion h

/-! ### Settled values are fixed -/

theorem clearFields_eq_self {fields values}
    (hfields : ∀ pair ∈ fields.zip values, schema.settled pair.1.type pair.2 = true →
      schema.clear pair.1.type pair.2 = pair.2)
    (hsettled : schema.settledFields fields values = true) :
    schema.clearFields fields values = values := by
  induction fields generalizing values with
  | nil => simp [clearFields]
  | cons field fields ih =>
    cases values with
    | nil => rfl
    | cons value values =>
      rw [zip_cons_cons, forall_mem_cons] at hfields
      rw [settledFields, Bool.and_eq_true] at hsettled
      rw [clearFields, hfields.1 hsettled.1, ih hfields.2 hsettled.2]

theorem clearArms_eq_self {selected components} {held : List (Option Value)}
    (harms : ∀ pair ∈ components.zip held, ∀ value ∈ pair.2,
      schema.settled pair.1.type value = true → schema.clear pair.1.type value = value)
    (hsettled : schema.settledArms selected components (held.map ofOption) = true) :
    schema.clearArms selected components (held.map ofOption) = held.map ofOption := by
  induction components generalizing held with
  | nil => simp [clearArms]
  | cons component components ih =>
    cases held with
    | nil => rfl
    | cons arm held =>
      rw [zip_cons_cons, forall_mem_cons] at harms
      cases arm with
      | none =>
        rw [clearArms_none, ih harms.2]
        · rfl
        · simpa [settledArms, ofOption] using hsettled
      | some value =>
        rw [map_cons, ofOption, settledArms, Bool.and_eq_true, Bool.and_eq_true] at hsettled
        obtain ⟨⟨hselected, hvalue⟩, hothers⟩ := hsettled
        rw [clearArms_some, if_pos hselected, harms.1 value rfl hvalue, ih harms.2 hothers]
        rfl

/-- **Clearing keeps a settled value.** -/
theorem HasType.clear_eq_self {type : Ty} {value : Value} (h : schema.HasType type value)
    (hsettled : schema.settled type value = true) : schema.clear type value = value := by
  induction h with
  | void | bool _ | int _ | uint _ | hyper _ | uhyper _ | float _ | double _ => rfl
  | text _ _ | fixedText _ _ | bytes _ _ | fixedBytes _ _ | absent _ | member _ _ => rfl
  | array limit _ ih | fixedArray limit _ ih =>
    rw [settled, settledItems_eq_all, all_eq_true] at hsettled
    rw [clear, clearItems_eq_map,
      map_congr_left fun value hvalue => ih value hvalue (hsettled value hvalue), map_id']
  | present _ ih =>
    rw [settled] at hsettled
    rw [clear, ih hsettled]
  | record hdecl _ _ ih =>
    simp only [settled, hdecl] at hsettled
    simp only [clear, hdecl]
    rw [clearFields_eq_self ih hsettled]
  | union hdecl _ _ _ ihtag iharms =>
    simp only [settled, hdecl, Bool.and_eq_true] at hsettled
    simp only [clear, hdecl]
    rw [ihtag hsettled.1, clearArms_eq_self iharms hsettled.2]

end Xdr.Schema
