import Xdr.Proofs.Schema.WireForm
import Xdr.Proofs.Wire.Writer
import Xdr.Schema.Encode

/-!
# Reading what was written

Every value that can be written is read back from the front of any input
that starts with its bytes.  What is read back is the value without its
stale arms, and exactly the bytes written are taken.

## Main Statements

* `Schema.HasType.wireForm_clear` — what is written is a wire form of the
  cleared value
* `Schema.decode_encode` — and so it is read back
-/

namespace Xdr.Schema

open List Output Packed Prod Value Wire

variable {component : Component} {components : List Component} {union : String} {type : Ty}
    {value : Value}

/-- The schemas whose values can be read back: their readers end, and the
arms of a union have names of their own. -/
structure WellFormed (schema : Schema) : Prop where
  productive : ∃ rank, schema.Productive rank
  nodup_arms : ∀ {name decl}, schema.find? name = some (.union decl) →
    (decl.arms.map Component.name).Nodup

variable {schema : Schema}

/-! ### Items and fields -/

/-- Items that were written have wire forms one after the other, if each
item has one. -/
theorem exists_parts_of_encodeItems {item items bytes}
    (hforms : ∀ value ∈ items, ∀ {bytes}, schema.encode item value = .wrote bytes →
      schema.WireForm item (schema.clear item value) bytes)
    (hencode : schema.encodeItems item items = .wrote bytes) :
    ∃ parts : List (Value × List UInt8), parts.length = items.length ∧
      items.map (schema.clear item) = parts.map fst ∧ bytes = parts.flatMap snd ∧
      ∀ part ∈ parts, schema.WireForm item part.1 part.2 := by
  induction items generalizing bytes with
  | nil =>
    obtain rfl := wrote_inj.mp hencode
    exact ⟨[], rfl, rfl, rfl, by simp⟩
  | cons value values ih =>
    rw [forall_mem_cons] at hforms
    rw [encodeItems] at hencode
    obtain ⟨front, back, hfront, hback, rfl⟩ := andThen_eq_wrote.mp hencode
    obtain ⟨parts, hlen, hmap, rfl, hparts⟩ := ih hforms.2 hback
    refine ⟨(schema.clear item value, front) :: parts, ?_, ?_, rfl, ?_⟩
    · rw [length_cons, length_cons, hlen]
    · rw [map_cons, map_cons, hmap]
    · exact forall_mem_cons.mpr ⟨hforms.1 hfront, hparts⟩

/-- Fields that were written have wire forms one after the other, if each
field has one. -/
theorem exists_parts_of_encodeFields {fields values bytes}
    (hforms : ∀ pair ∈ fields.zip values, ∀ {bytes},
      schema.encode pair.1.type pair.2 = .wrote bytes →
      schema.WireForm pair.1.type (schema.clear pair.1.type pair.2) bytes)
    (hencode : schema.encodeFields fields values = .wrote bytes) :
    ∃ parts : List (Value × List UInt8), fields.length = parts.length ∧
      schema.clearFields fields values = parts.map fst ∧ bytes = parts.flatMap snd ∧
      ∀ pair ∈ fields.zip parts, schema.WireForm pair.1.type pair.2.1 pair.2.2 := by
  induction fields generalizing values bytes with
  | nil =>
    cases values with
    | nil =>
      obtain rfl := wrote_inj.mp hencode
      exact ⟨[], rfl, rfl, rfl, by simp⟩
    | cons value values => exact absurd hencode (failed_ne_wrote _ _)
  | cons field fields ih =>
    cases values with
    | nil => exact absurd hencode (failed_ne_wrote _ _)
    | cons value values =>
      rw [zip_cons_cons, forall_mem_cons] at hforms
      rw [encodeFields] at hencode
      obtain ⟨front, back, hfront, hback, rfl⟩ := andThen_eq_wrote.mp hencode
      obtain ⟨parts, hlen, hmap, rfl, hparts⟩ := ih hforms.2 hback
      refine ⟨(schema.clear field.type value, front) :: parts, ?_, ?_, rfl, ?_⟩
      · rw [length_cons, length_cons, hlen]
      · rw [clearFields, hmap, map_cons]
      · rw [zip_cons_cons]
        exact forall_mem_cons.mpr ⟨hforms.1 hfront, hparts⟩

/-! ### Arms -/

/-- An arm that is not selected is not kept. -/
theorem clearArms_cons_of_ne {selected} (hne : some component.name ≠ selected)
    (components : List Component) (arm : Option Value) (held : List (Option Value)) :
    schema.clearArms selected (component :: components) ((arm :: held).map ofOption) =
      .absent :: schema.clearArms selected components (held.map ofOption) := by
  cases arm with
  | none => rw [clearArms_none]
  | some value => rw [clearArms_some, if_neg (by simpa using hne)]

/-- Where none of some arms is selected, none is kept. -/
theorem clearArms_of_not_selected {selected} {held : List (Option Value)}
    (hlen : components.length = held.length)
    (hselected : ∀ component ∈ components, some component.name ≠ selected) :
    schema.clearArms selected components (held.map ofOption) =
      components.map fun _ => .absent := by
  induction components generalizing held with
  | nil =>
    rw [length_eq_zero_iff.mp hlen.symm]
    rfl
  | cons component components ih =>
    rw [forall_mem_cons] at hselected
    cases held with
    | nil => cases hlen
    | cons arm held =>
      rw [clearArms_cons_of_ne hselected.1, ih (Nat.succ.inj hlen) hselected.2, map_cons]

/-- An arm of another name is passed over. -/
theorem encodeArm_cons_of_ne {arm} (hne : component.name ≠ arm) (components : List Component)
    (place : Option Value) (held : List (Option Value)) :
    schema.encodeArm union arm (component :: components) ((place :: held).map ofOption) =
      schema.encodeArm union arm components (held.map ofOption) := by
  cases place <;> simp [encodeArm, ofOption, hne]

/-- Where no arm has the given name, nothing is written. -/
theorem encodeArm_of_find_none {arm} {held : List (Option Value)}
    (hlen : components.length = held.length)
    (hnames : ∀ component ∈ components, component.name ≠ arm) :
    schema.encodeArm union arm components (held.map ofOption) = .wrote [] := by
  induction components generalizing held with
  | nil =>
    rw [length_eq_zero_iff.mp hlen.symm]
    rfl
  | cons component components ih =>
    rw [forall_mem_cons] at hnames
    cases held with
    | nil => cases hlen
    | cons place held => rw [encodeArm_cons_of_ne hnames.1, ih (Nat.succ.inj hlen) hnames.2]

theorem exists_place {held : List (Option Value)} (hlen : components.length = held.length)
    (h : component ∈ components) : ∃ place, (component, place) ∈ components.zip held := by
  rw [← map_fst_zip (Nat.le_of_eq hlen), mem_map] at h
  obtain ⟨⟨_, place⟩, hmem, rfl⟩ := h
  exact ⟨place, hmem⟩

section Selected

variable {components : List Component} {component : Component} {place : Option Value}
    {held : List (Option Value)}
  (hnodup : (components.map Component.name).Nodup)
  (hmem : (component, place) ∈ components.zip held)
include hnodup hmem

/-- What passes over arms of other names comes to the arm of the given name.
-/
theorem exists_eq_selected {β : Type} {f : List Component → List Value → β}
    (hskip : ∀ {other : Component}, other.name ≠ component.name → ∀ components place held,
      f (other :: components) ((place :: held).map ofOption) =
        f components (held.map ofOption)) :
    ∃ others later, f components (held.map ofOption) =
      f (component :: others) ((place :: later).map ofOption) := by
  induction components generalizing held with
  | nil => cases hmem
  | cons first components ih =>
    rw [map_cons, nodup_cons] at hnodup
    cases held with
    | nil => cases hmem
    | cons other held =>
      rcases mem_cons.mp hmem with hfirst | hmem
      · obtain ⟨rfl, rfl⟩ := mk.inj hfirst
        exact ⟨components, held, rfl⟩
      · have hne : first.name ≠ component.name :=
          fun hname => hnodup.1 (hname ▸ mem_map_of_mem (of_mem_zip hmem).1)
        obtain ⟨others, later, heq⟩ := ih hnodup.2 hmem
        exact ⟨others, later, (hskip hne ..).trans heq⟩

/-- The selected arm is written if it is there, and is missing otherwise. -/
theorem encodeArm_eq_elim :
    schema.encodeArm union component.name components (held.map ofOption) =
      place.elim (.failed (.missingArm union component.name))
        (schema.encode component.type) := by
  obtain ⟨others, later, heq⟩ :=
    exists_eq_selected (f := schema.encodeArm union component.name) hnodup hmem
    encodeArm_cons_of_ne
  rw [heq]
  cases place <;> simp [encodeArm, ofOption]

/-- The selected arm is the only one that is kept. -/
theorem clearArms_eq_map (hlen : components.length = held.length) :
    schema.clearArms (some component.name) components (held.map ofOption) =
      components.map fun other =>
        if other.name == component.name then
          ofOption (place.map (schema.clear component.type))
        else .absent := by
  induction components generalizing held with
  | nil => cases hmem
  | cons first components ih =>
    rw [map_cons, nodup_cons] at hnodup
    cases held with
    | nil => cases hmem
    | cons other held =>
      rw [map_cons (l := components)]
      rcases mem_cons.mp hmem with hfirst | hmem
      · obtain ⟨rfl, rfl⟩ := mk.inj hfirst
        have hothers : ∀ other ∈ components, other.name ≠ component.name :=
          fun other hother hname => hnodup.1 (hname ▸ mem_map_of_mem hother)
        have hrest : components.map (fun other => if other.name == component.name then
              ofOption (place.map (schema.clear component.type)) else .absent) =
            schema.clearArms (some component.name) components (held.map ofOption) := by
          rw [clearArms_of_not_selected (Nat.succ.inj hlen) (by simpa using hothers)]
          exact map_congr_left fun other hother =>
            if_neg (by simpa using hothers other hother)
        rw [if_pos (beq_self_eq_true component.name), hrest]
        cases place with
        | none => rw [clearArms_none]; rfl
        | some value => rw [clearArms_some, if_pos (by simp)]; rfl
      · have hne : first.name ≠ component.name :=
          fun hname => hnodup.1 (hname ▸ mem_map_of_mem (of_mem_zip hmem).1)
        rw [clearArms_cons_of_ne (by simpa using hne), ih hnodup.2 hmem (Nat.succ.inj hlen),
          if_neg (by simpa using hne)]

end Selected

/-! ### Values -/

theorem WireForm.of_wrote {written bytes} (h : schema.WireForm type value written)
    (hbytes : .wrote written = (.wrote bytes : Packed)) :
    schema.WireForm type value bytes := by
  rwa [← wrote_inj.mp hbytes]

/-- **What is written is a wire form** of the value without its stale arms. -/
theorem HasType.wireForm_clear (hschema : schema.WellFormed) (h : schema.HasType type value) :
    ∀ {bytes : List UInt8}, schema.encode type value = .wrote bytes →
      schema.WireForm type (schema.clear type value) bytes := by
  induction h with
  | void => exact WireForm.void.of_wrote
  | bool value => exact (WireForm.bool value).of_wrote
  | int value => exact (WireForm.int _).of_wrote
  | uint value => exact (WireForm.uint value).of_wrote
  | hyper value => exact (WireForm.hyper _).of_wrote
  | uhyper value => exact (WireForm.uhyper value).of_wrote
  | float bits => exact (WireForm.float bits).of_wrote
  | double bits => exact (WireForm.double bits).of_wrote
  | text limit value =>
    intro bytes hencode
    obtain ⟨count, hlen, hlimit, rfl⟩ := blob_eq_wrote.mp hencode
    exact .text hlimit hlen (by rw [length_replicate, hlen])
  | fixedText length value =>
    intro bytes hencode
    obtain ⟨hlen, rfl⟩ := fixedBlob_eq_wrote.mp hencode
    exact .fixedText hlen (by rw [length_replicate, hlen])
  | bytes limit value =>
    intro bytes hencode
    obtain ⟨count, hlen, hlimit, rfl⟩ := blob_eq_wrote.mp hencode
    exact .bytes hlimit hlen (by rw [length_replicate, hlen])
  | fixedBytes length value =>
    intro bytes hencode
    obtain ⟨hlen, rfl⟩ := fixedBlob_eq_wrote.mp hencode
    exact .fixedBytes hlen (by rw [length_replicate, hlen])
  | array limit _ ih =>
    intro bytes hencode
    obtain ⟨count, back, hlen, hlimit, hback, rfl⟩ := counted_eq_wrote.mp hencode
    obtain ⟨parts, hparts, hmap, rfl, hforms⟩ := exists_parts_of_encodeItems ih hback
    rw [clear, clearItems_eq_map, hmap]
    exact .array hlimit (hparts.trans hlen) hforms
  | fixedArray length _ ih =>
    intro bytes hencode
    obtain ⟨hlen, hback⟩ := fixed_eq_wrote.mp hencode
    obtain ⟨parts, hparts, hmap, rfl, hforms⟩ := exists_parts_of_encodeItems ih hback
    rw [clear, clearItems_eq_map, hmap]
    exact .fixedArray (hparts.trans hlen) hforms
  | absent item => exact (WireForm.absent item).of_wrote
  | present _ ih =>
    intro bytes hencode
    obtain ⟨front, back, hfront, hback, rfl⟩ := andThen_eq_wrote.mp hencode
    obtain rfl := wrote_inj.mp hfront
    exact .present (ih hback)
  | member hdecl hmember =>
    intro bytes hencode
    simp only [encode, hdecl] at hencode
    obtain rfl := wrote_inj.mp hencode
    exact .member hdecl hmember
  | record hdecl _ _ ih =>
    intro bytes hencode
    simp only [encode, hdecl] at hencode
    obtain ⟨parts, hlen, hmap, rfl, hforms⟩ := exists_parts_of_encodeFields ih hencode
    simp only [clear, hdecl]
    rw [hmap]
    exact .record hdecl hlen hforms
  | @union name decl tag held hdecl _ hlen _ ihtag iharms =>
    intro bytes hencode
    simp only [encode, hdecl] at hencode
    obtain ⟨front, back, hfront, hback, rfl⟩ := andThen_eq_wrote.mp hencode
    have htag := ihtag hfront
    -- Clearing may change the tag, if it is a union itself, but not which arm it selects.
    have hselect : decl.select (schema.clear decl.tag.type tag) = decl.select tag :=
      select_clear _ _ _
    simp only [clear, hdecl]
    -- A selector may also name no arm at all; then nothing but the tag is written.
    cases hfind : decl.arms.find? fun other => some other.name == decl.select tag with
    | none =>
      have hnames : ∀ arm ∈ decl.arms, some arm.name ≠ decl.select tag := by
        simpa [find?_eq_none] using hfind
      rw [clearArms_of_not_selected hlen hnames]
      have hempty : back = [] := by
        cases harm : decl.select tag with
        | none =>
          simp only [harm] at hback
          exact (wrote_inj.mp hback).symm
        | some arm =>
          rw [harm] at hnames
          simp only [harm] at hback
          rw [encodeArm_of_find_none hlen (by simpa using hnames)] at hback
          exact (wrote_inj.mp hback).symm
      rw [hempty, append_nil]
      exact .bareUnion hdecl htag (by rw [hselect, hfind])
    | some component =>
      have hfound := find?_some hfind
      have harm : decl.select tag = some component.name := (beq_iff_eq.mp hfound).symm
      rw [harm] at hfind ⊢
      obtain ⟨place, hmem⟩ := exists_place hlen (mem_of_find?_eq_some hfind)
      simp only [harm, encodeArm_eq_elim (hschema.nodup_arms hdecl) hmem] at hback
      rw [clearArms_eq_map (hschema.nodup_arms hdecl) hmem hlen]
      cases place with
      | none => exact absurd hback (failed_ne_wrote _ _)
      | some value =>
        exact .union hdecl htag (by rw [hselect, harm, hfind]) (iharms _ hmem value rfl hback)

/-- **Reading what was written.**  A value that can be written is read back
without its stale arms, from the front of any input that starts with its
bytes, and exactly these bytes are taken. -/
theorem decode_encode (hschema : schema.WellFormed) {bytes : List UInt8}
    (hvalue : schema.HasType type value)
    (hencode : (schema.encode type value).result = .ok bytes) (rest : List UInt8) :
    schema.decode type (bytes ++ rest) = (.ok (schema.clear type value), rest) := by
  obtain ⟨rank, hrank⟩ := hschema.productive
  have hform := hvalue.wireForm_clear hschema (result_eq_ok.mp hencode)
  exact (decode_eq_ok hrank).mpr ⟨bytes, rfl, hform⟩

end Xdr.Schema
