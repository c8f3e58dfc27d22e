import Mathlib.Logic.Equiv.Defs
import Xdr.Proofs.Schema.Faults
import Xdr.Proofs.Schema.Keys

/-!
# Lists, wrapped values and values that may be absent

How the structural form of a composite type comes from that of its items,
whatever these are.  Lists are read back if their items are, and so is what
only wraps a value.  A value that may be absent is written as it is, and an
absent one as `null`.  So a form of the items that uses `null` itself is no
longer told apart from absence: a value that may be absent is read back if
and only if no item has the form `null`.

## Main Statements

* `Codec.RoundTripsOn.list`, `Codec.RoundTripsOn.wrapped` — what is read
  back with the items
* `Codec.RoundTripsOn.optional_iff` — and what is not
* `Schema.carries_array`, `Schema.carries_optional` — the types of a schema
  are written and read this way
* `Codec.combinators_roundTrip` — all of this, for the types of any schema
  and for any codec
-/

namespace Xdr

open Json Value

/-- How the values of a type are written in structural form, and read from
it. -/
structure Codec (α : Type) where
  write : α → Json
  read : Json → Except WireError α

namespace Codec

variable {α β : Type}

/-- Lists of values. -/
def list (codec : Codec α) : Codec (List α) where
  write items := .array (items.map codec.write)
  read value := do (← value.items).mapM codec.read

/-- What only wraps a value, as a pointer that is never null or a new name
for the type does. -/
def wrapped (codec : Codec α) (wrap : α ≃ β) : Codec β where
  write value := codec.write (wrap.symm value)
  read value := (codec.read value).map wrap

/-- Values that may be absent. -/
def optional (codec : Codec α) : Codec (Option α) where
  write
    | none => .null
    | some value => codec.write value
  read
    | .null => .ok none
    | value => (codec.read value).map some

/-- These values are read back from their form. -/
def RoundTripsOn (codec : Codec α) (valid : α → Prop) : Prop :=
  ∀ value, valid value → codec.read (codec.write value) = .ok value

theorem optional_read_of_ne_null (codec : Codec α) {json} (h : json ≠ .null) :
    codec.optional.read json = (codec.read json).map some := by
  cases json with
  | null => exact absurd rfl h
  | _ => rfl

namespace RoundTripsOn

variable {codec : Codec α} {valid : α → Prop} (h : codec.RoundTripsOn valid)
include h

/-- **Lists are read back** if their items are. -/
theorem list : codec.list.RoundTripsOn fun items => ∀ item ∈ items, valid item := by
  intro items hitems
  have hread : (items.map codec.write).mapM codec.read = .ok (items.map id) :=
    mapM_map_eq_ok fun item hitem => h item (hitems item hitem)
  rw [List.map_id] at hread
  exact hread

/-- **What wraps a value is read back** if the value is. -/
theorem wrapped (wrap : α ≃ β) : (codec.wrapped wrap).RoundTripsOn fun value =>
    valid (wrap.symm value) := by
  intro value hvalue
  show (codec.read (codec.write (wrap.symm value))).map wrap = .ok value
  rw [h _ hvalue, Except.map, wrap.apply_symm_apply]

/-- **A value that may be absent is read back** if and only if no value has
the form of absence. -/
theorem optional_iff : (codec.optional.RoundTripsOn fun held => ∀ value ∈ held, valid value) ↔
    ∀ value, valid value → codec.write value ≠ .null := by
  constructor
  · intro hoptional value hvalue hnull
    -- Such a value would be read as absent.
    have hread : codec.optional.read (codec.write value) = .ok (some value) :=
      hoptional (some value) fun other hother => Option.some.inj hother ▸ hvalue
    rw [hnull] at hread
    cases hread
  · intro hnull held hheld
    cases held with
    | none => rfl
    | some value =>
      have hvalue := hheld value rfl
      show codec.optional.read (codec.write value) = .ok (some value)
      rw [optional_read_of_ne_null codec (hnull value hvalue), h value hvalue]
      rfl

end RoundTripsOn

/-- One codec is another, for the same values under another name. -/
structure Carries (codec : Codec α) (other : Codec β) (make : α → β) : Prop where
  write_eq : ∀ value, other.write (make value) = codec.write value
  read_eq : ∀ json, other.read json = (codec.read json).map make

/-- Under another name the same values are read back. -/
theorem Carries.roundTripsOn_iff {codec : Codec α} {other : Codec β} {make : α → β}
    (h : codec.Carries other make) (hmake : Function.Injective make) {valid : α → Prop}
    {valid' : β → Prop}
    (hvalid : ∀ value', valid' value' ↔ ∃ value, valid value ∧ make value = value') :
    other.RoundTripsOn valid' ↔ codec.RoundTripsOn valid := by
  have hread : ∀ value, other.read (other.write (make value)) = .ok (make value) ↔
      codec.read (codec.write value) = .ok value := by
    intro value
    rw [h.write_eq, h.read_eq]
    cases codec.read (codec.write value) with
    | error error => simp [Except.map]
    | ok found => simp [Except.map, hmake.eq_iff]
  constructor
  · intro hother value hvalue
    exact (hread value).mp (hother _ ((hvalid _).mpr ⟨value, hvalue, rfl⟩))
  · intro hcodec value' hvalue'
    obtain ⟨value, hvalue, rfl⟩ := (hvalid value').mp hvalue'
    exact (hread value).mpr (hcodec value hvalue)

end Codec

/-- The arrays that have such items, with a limit or of a fixed length. -/
inductive Ty.ItemOf (item : Ty) : Ty → Prop
  | bounded (limit : Option UInt32) : ItemOf item (.array item limit)
  | fixed (length : UInt32) : ItemOf item (.fixedArray item length)

namespace Schema

variable (schema : Schema) (item : Ty)

/-- The structural form of a type. -/
def codec (schema : Schema) (type : Ty) : Codec Value where
  write := schema.toJson type
  read := schema.ofJson type

/-- Items are read as they are alone, however deep the array is. -/
theorem mapM_ofJson (items : List Json) :
    items.mapM (item.ofJson (schema.ofJsonNamed ((array items).depth + 1))) =
      items.mapM (schema.ofJson item) := by
  refine mapM_congr_mem fun inner hinner => (ofJson_eq item ?_).symm
  have hdepth := depth_le_depthItems hinner
  rw [depth]
  omega

variable {item}

/-- **An array is a list** of its items, whatever length is declared. -/
theorem carries_array {type : Ty} (htype : item.ItemOf type) :
    (schema.codec item).list.Carries (schema.codec type) list := by
  constructor
  · intro items
    have hitems : itemsToJson schema item items = items.map (schema.toJson item) :=
      itemsToJson_eq_map item items
    cases htype <;> exact congrArg array hitems
  · intro json
    cases htype <;> cases json with
    | array items =>
      have hread :
        (schema.codec item).list.read (.array items) = items.mapM (schema.ofJson item) := rfl
      rw [hread, ← mapM_ofJson]
      rfl
    | _ => rfl

theorem hasType_array_iff {type} (htype : item.ItemOf type) (value : Value) :
    schema.HasType type value ↔ ∃ items, (∀ inner ∈ items, schema.HasType item inner) ∧
      list items = value := by
  constructor
  · intro hvalue
    cases htype with
    | bounded limit =>
      cases hvalue with
      | array _ hitems => exact ⟨_, hitems, rfl⟩
    | fixed length =>
      cases hvalue with
      | fixedArray _ hitems => exact ⟨_, hitems, rfl⟩
  · rintro ⟨items, hitems, rfl⟩
    cases htype with
    | bounded limit => exact .array limit hitems
    | fixed length => exact .fixedArray length hitems

/-- Arrays are read back if and only if lists of their items are. -/
theorem roundTripsOn_array_iff {type : Ty} (htype : item.ItemOf type) :
    (schema.codec type).RoundTripsOn (schema.HasType type) ↔
      (schema.codec item).list.RoundTripsOn fun items =>
        ∀ inner ∈ items, schema.HasType item inner :=
  (schema.carries_array htype).roundTripsOn_iff (fun _ _ =>
    list.inj) (schema.hasType_array_iff htype)

variable (item)

/-- **Optional data** is a value that may be absent. -/
theorem carries_optional :
    (schema.codec item).optional.Carries (schema.codec (.optional item)) ofOption := by
  have hmap : ∀ read : Except WireError Value,
    (read.map some).map ofOption = read.map present := by
    intro read
    cases read <;> rfl
  constructor
  · intro held
    cases held <;> rfl
  · intro json
    cases json with
    | null => rfl
    | _ =>
      rw [Codec.optional_read_of_ne_null _ Json.noConfusion, hmap]
      rfl

theorem hasType_optional_iff (value : Value) : schema.HasType (.optional item) value ↔
    ∃ held : Option Value, (∀ inner ∈ held, schema.HasType item inner) ∧
    ofOption held = value := by
  constructor
  · intro hvalue
    cases hvalue with
    | absent => exact ⟨none, by simp, rfl⟩
    | present hinner => exact ⟨some _, by simpa using hinner, rfl⟩
  · rintro ⟨held, hheld, rfl⟩
    cases held with
    | none => exact .absent item
    | some inner => exact .present (hheld inner rfl)

/-- Optional data is read back if and only if the values that may be absent
are. -/
theorem roundTripsOn_optional_iff :
    (schema.codec (.optional item)).RoundTripsOn (schema.HasType (.optional item)) ↔
    (schema.codec item).optional.RoundTripsOn fun held =>
      ∀ inner ∈ held, schema.HasType item inner :=
  (schema.carries_optional item).roundTripsOn_iff ofOption_injective
    (schema.hasType_optional_iff item)

end Schema

/-- **Composite values are read back with their items**, all but optional
data.

If the items of a type are read back, then so are the arrays of them.
Optional data is read back if and only if no item is written as `null`: an
item that is written so is read as absent.  The same holds however items are
written and read: lists of them and what wraps them are read back, and what
may be absent is under the same condition. -/
theorem Codec.combinators_roundTrip (schema : Schema) (item : Ty) :
    ((∀ value, schema.HasType item value →
        schema.ofJson item (schema.toJson item value) = .ok value) →
      (∀ type, item.ItemOf type → ∀ value, schema.HasType type value →
        schema.ofJson type (schema.toJson type value) = .ok value) ∧
      ((∀ value, schema.HasType (.optional item) value →
          schema.ofJson (.optional item) (schema.toJson (.optional item) value) = .ok value) ↔
        ∀ value, schema.HasType item value → schema.toJson item value ≠ .null)) ∧
    ∀ (α : Type) (codec : Codec α) (valid : α → Prop), codec.RoundTripsOn valid →
      (codec.list.RoundTripsOn fun items => ∀ value ∈ items, valid value) ∧
      (∀ (β : Type) (wrap : α ≃ β),
        (codec.wrapped wrap).RoundTripsOn fun value => valid (wrap.symm value)) ∧
      ((codec.optional.RoundTripsOn fun held => ∀ value ∈ held, valid value) ↔
        ∀ value, valid value → codec.write value ≠ .null) ∧
      ∀ value, codec.write value = .null →
        codec.optional.read (codec.optional.write (some value)) = .ok none := by
  constructor
  · intro hitem
    have h : (schema.codec item).RoundTripsOn (schema.HasType item) := hitem
    refine ⟨fun type htype => (schema.roundTripsOn_array_iff htype).mpr h.list, ?_⟩
    exact (schema.roundTripsOn_optional_iff item).trans h.optional_iff
  · intro α codec valid h
    refine ⟨h.list, fun β wrap => h.wrapped wrap, h.optional_iff, fun value hnull => ?_⟩
    show codec.optional.read (codec.write value) = .ok none
    rw [hnull]
    rfl

/-- Optional data in optional data: where the inner value alone is absent,
the structural form says that the outer one is, and the wire form keeps the
two apart. -/
theorem Codec.combinators_roundTrip_nested :
    (∀ value, Schema.HasType [] (.optional .int) value →
      Schema.ofJson [] (.optional .int) (Schema.toJson [] (.optional .int) value) =
        .ok value) ∧
    (¬ ∀ value, Schema.HasType [] (.optional (.optional .int)) value →
      Schema.ofJson [] (.optional (.optional .int))
        (Schema.toJson [] (.optional (.optional .int)) value) = .ok value) ∧
    Schema.ofJson [] (.optional (.optional .int))
      (Schema.toJson [] (.optional (.optional .int)) (.present .absent)) = .ok .absent ∧
    (Schema.encode [] (.optional (.optional .int)) (.present .absent)).result =
      .ok [0, 0, 0, 1, 0, 0, 0, 0] ∧
    Schema.decode [] (.optional (.optional .int)) [0, 0, 0, 1, 0, 0, 0, 0] =
      (.ok (.present .absent), []) := by
  have hint : ∀ value, Schema.HasType [] .int value →
      Schema.ofJson [] .int (Schema.toJson [] .int value) = .ok value ∧
      Schema.toJson [] .int value ≠ .null := by
    intro value hvalue
    cases hvalue with
    | int number =>
      refine ⟨?_, Json.noConfusion⟩
      rw [Schema.toJson, Schema.ofJson, Ty.ofJson, Json.int32_toInt]
      rfl
  have hinner :=
    ((Codec.combinators_roundTrip [] .int).1 fun value hvalue => (hint value hvalue).1).2.mpr
    fun value hvalue => (hint value hvalue).2
  refine ⟨hinner, fun hnested => ?_, rfl, rfl, rfl⟩
  exact ((Codec.combinators_roundTrip [] (.optional .int)).1 hinner).2.mp hnested .absent
    (.absent .int) rfl

end Xdr
