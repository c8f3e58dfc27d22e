import Xdr.Proofs.Binary
import Xdr.Proofs.Results
import Xdr.Proofs.Schema.RoundTrip
import Xdr.Proofs.Table
import Xdr.Schema.Structural

/-!
# Reading the structural form of a value

Every value whose binary numbers are finite is read back from its structural
form, without its stale arms.  No limit is looked at on the way, so this
holds of values too that cannot be written to the wire.

## Main Statements

* `Json.narrow_widen` — a finite number of 32 bits is read back from its 64
  bits
* `Schema.HasType.toJson_ne_null` — only what may be absent has the form
  `null`
* `Schema.ofJson_toJson` — reading the structural form of a value

## Design Notes

The reader counts the names it goes through, and starts with the depth of
the form.  An object takes one from both, and a member of an enumeration has
no depth but needs a count of one; so the invariant of the induction is that
the depth stays below the count.
-/

namespace Xdr

open Binary Component Json List Nat Table TypeDef Value

/-! ### Binary numbers -/

/-- A magnitude that is a number. -/
def Binary.Magnitude.isFinite : Magnitude → Bool
  | .finite _ _ => true
  | _ => false

theorem Binary.Magnitude.isFinite_iff {magnitude : Magnitude} :
    magnitude.isFinite = true ↔
    ∃ significand exponent, magnitude = .finite significand exponent := by
  cases magnitude <;> simp [isFinite]

namespace Json

/-- A finite number of 32 bits is finite in 64 bits, and is read back from
them. -/
theorem narrow_widen {bits : UInt32} (h : (magnitude single bits.toNat).isFinite = true) :
    (magnitude double (widen bits).toNat).isFinite = true ∧ narrow (widen bits) = bits := by
  obtain ⟨significand, exponent, hbits⟩ := Magnitude.isFinite_iff.mp h
  obtain ⟨hsingle, -⟩ := holds_of_magnitude hbits
  obtain ⟨significand', exponent', hdouble, hvalue⟩ := exists_double_of_single hsingle
  have hlt : bits.toNat < 2 * single.signBit := bits.toNat_lt
  obtain ⟨hmagnitude, hback⟩ := convert_convert hlt hbits hvalue.symm hdouble
  have hpattern := hdouble.pattern_lt.trans double.infinity_lt_signBit
  have hwide : (widen bits).toNat = convert single double bits.toNat := by
    have hfits : convert single double bits.toNat < 2 ^ 64 := by
      rw [convert_eq_pattern hbits hvalue.symm hdouble]
      exact withSign_lt _ hpattern
    rw [widen, UInt64.toNat_ofNat', mod_eq_of_lt hfits]
  refine ⟨?_, ?_⟩
  · rw [hwide, hmagnitude]
    rfl
  · rw [narrow, hwide, hback, UInt32.ofNat_toNat]

theorem ofDouble_of_isFinite {bits : UInt64}
    (h : (magnitude double bits.toNat).isFinite = true) :
    ofDouble bits = .number (.float bits) := by
  obtain ⟨significand, exponent, hbits⟩ := Magnitude.isFinite_iff.mp h
  simp only [ofDouble, hbits]

/-! ### Integers and depths -/

theorem intWithin_int {least greatest n} (required : String) (hleast : least ≤ n)
    (hgreatest : n ≤ greatest) : intWithin least greatest required (.int n) = .ok n :=
  if_pos ⟨hleast, hgreatest⟩

theorem int32_toInt (value : Int32) : (int value.toInt).int32 = .ok value := by
  have hleast : -0x80000000 ≤ value.toInt := value.le_toInt
  have hgreatest : value.toInt < 0x80000000 := value.toInt_lt
  rw [int32, intWithin_int _ hleast (by omega), Except.map, Int32.ofInt_toInt]

theorem byte_toNat (value : UInt8) : (nat value.toNat).byte = .ok value := by
  have hlt : value.toNat < 256 := value.toNat_lt
  rw [byte, nat, intWithin_int _ (by omega) (by omega), Except.map, Int.toNat_natCast,
    UInt8.ofNat_toNat]

theorem mapM_byte (bytes : List UInt8) :
    (bytes.map fun byte => nat byte.toNat).mapM byte = .ok bytes := by
  rw [mapM_map_eq_ok fun byte _ => byte_toNat byte, map_id']

theorem depth_le_depthItems {item items} (h : item ∈ items) :
    item.depth ≤ depthItems items := by
  induction items with
  | nil => cases h
  | cons first items ih =>
    rw [depthItems]
    rcases mem_cons.mp h with rfl | h
    · exact le_max_left _ _
    · exact (ih h).trans (le_max_right _ _)

theorem depth_le_depthMembers {name value} {members : Table Json}
    (h : members.find? name = some value) : value.depth ≤ depthMembers members := by
  have hmem := mem_of_find? h
  clear h
  induction members with
  | nil => cases hmem
  | cons first members ih =>
    rw [depthMembers]
    rcases mem_cons.mp hmem with rfl | hmem
    · exact le_max_left _ _
    · exact (ih hmem).trans (le_max_right _ _)

end Json

/-! ### What the structural form tells apart -/

mutual

/-- All binary numbers of a value are finite. -/
def Value.isFinite : Value → Bool
  | .float bits => (magnitude single bits.toNat).isFinite
  | .double bits => (Binary.magnitude Binary.double bits.toNat).isFinite
  | .list items => allFinite items
  | .present value => value.isFinite
  | .record fields => allFinite fields
  | .union tag arms => tag.isFinite && allFinite arms
  | _ => true

/-- All binary numbers of some values are finite. -/
def Value.allFinite : List Value → Bool
  | [] => true
  | value :: values => value.isFinite && allFinite values

end

theorem Value.allFinite_iff {values} :
    allFinite values = true ↔ ∀ value ∈ values, value.isFinite = true := by
  induction values with
  | nil => simp [allFinite]
  | cons value values ih => rw [allFinite, Bool.and_eq_true, ih, forall_mem_cons]

/-- A value of the type may have the form `null`, whatever its numbers are. -/
def Ty.isNullable : Ty → Bool
  | .void => true
  | .optional _ => true
  | _ => false

/-- Nothing that may be absent holds something else that has the form
`null`. -/
def Ty.isDefinite : Ty → Bool
  | .array item _ => item.isDefinite
  | .fixedArray item _ => item.isDefinite
  | .optional item => !item.isNullable && item.isDefinite
  | _ => true

/-- The parts of a declaration that have a type. -/
def TypeDef.components : TypeDef → List Component
  | .enumeration _ => []
  | .record fields => fields
  | .union decl => decl.tag :: decl.arms

/-- The names that the structural form of a declaration uses. -/
def TypeDef.keys : TypeDef → List String
  | .enumeration decl => decl.members.map Prod.fst
  | decl => decl.components.map name

/-- The declarations whose structural form tells their values apart: the
names in it are distinct, and the types of the components are definite. -/
structure TypeDef.Definite (decl : TypeDef) : Prop where
  nodup : decl.keys.Nodup
  components : ∀ component ∈ decl.components, component.type.isDefinite = true

namespace Schema

variable {value : Value} {values : List Value} {name : String} {type : Ty}
    {fields : List Component}

/-- What holds of the types of all components of all entries holds where a
name is looked up. -/
theorem forall_components_of_all {schema : Schema} {p : Ty → Bool}
    (hall : (schema.all fun entry => entry.2.components.all fun component =>
      p component.type) = true) {decl : TypeDef} (hdecl : schema.find? name = some decl) :
    ∀ component ∈ decl.components, p component.type = true :=
  all_eq_true.mp (all_eq_true.mp hall _ (mem_of_find? hdecl))

/-- All declarations of a schema are definite. -/
def Definite (schema : Schema) : Prop :=
  ∀ {name decl}, schema.find? name = some decl → decl.Definite

variable {schema : Schema}

/-- Only what may be absent has the form `null`. -/
theorem HasType.toJson_ne_null (h : schema.HasType type value)
    (hfinite : value.isFinite = true)
    (htype : type.isNullable = false) : schema.toJson type value ≠ .null := by
  cases h with
  | void | absent _ | present _ => cases htype
  | float bits =>
    rw [toJson,
      Json.ofDouble_of_isFinite (Json.narrow_widen hfinite).1]; exact Json.noConfusion
  | double bits => rw [toJson, Json.ofDouble_of_isFinite hfinite]; exact Json.noConfusion
  | member hdecl hmember =>
    obtain ⟨found, hfound⟩ := Option.isSome_iff_exists.mp hmember
    simp only [toJson, hdecl, hfound]
    exact Json.noConfusion
  | record hdecl _ _ => simp only [toJson, hdecl]; exact Json.noConfusion
  | union hdecl _ _ _ => simp only [toJson, hdecl]; exact Json.noConfusion
  | _ => rw [toJson]; exact Json.noConfusion

/-! ### Items and fields -/

theorem itemsToJson_eq_map (item : Ty) (items : List Value) :
    schema.itemsToJson item items = items.map (schema.toJson item) := by
  induction items with
  | nil => rfl
  | cons value values ih => rw [itemsToJson, ih, map_cons]

theorem fieldsToJson_eq_map (fields : List Component) (values : List Value) :
    schema.fieldsToJson fields values =
      (fields.zip values).map fun pair =>
        (pair.1.name, schema.toJson pair.1.type pair.2) := by
  induction fields generalizing values with
  | nil => simp [fieldsToJson]
  | cons field fields ih =>
    cases values with
    | nil => rfl
    | cons value values => rw [fieldsToJson, ih, zip_cons_cons, map_cons]

/-- The members of a record with distinct names are its fields, in order. -/
theorem toJson_record (hdecl : schema.find? name = some (.record fields))
    (hlen : fields.length = values.length) (hnodup : (fields.map Component.name).Nodup) :
    schema.toJson (.named name) (.record values) =
      .object (schema.fieldsToJson fields values) := by
  have hkeys : ((schema.fieldsToJson fields values).map Prod.fst).Nodup := by
    rw [← map_fst_zip (le_of_eq hlen), map_map] at hnodup
    rw [fieldsToJson_eq_map, map_map]
    exact hnodup
  simp only [toJson, hdecl, insertAll_nil hkeys]

/-- Every field is found under its name. -/
theorem find?_fieldsToJson (hnodup : (fields.map Component.name).Nodup) {field}
    (hmem : (field, value) ∈ fields.zip values) :
    (schema.fieldsToJson fields values).find? field.name =
      some (schema.toJson field.type value) := by
  induction fields generalizing values with
  | nil => cases hmem
  | cons first fields ih =>
    rw [map_cons, nodup_cons] at hnodup
    cases values with
    | nil => cases hmem
    | cons firstValue values =>
      rw [fieldsToJson, Table.find?_cons]
      rcases mem_cons.mp hmem with heq | hmem
      · obtain ⟨rfl, rfl⟩ := Prod.mk.inj heq
        exact if_pos rfl
      · have hne : field.name ≠ first.name :=
          fun h => hnodup.1 (h ▸ mem_map_of_mem (of_mem_zip hmem).1)
        rw [if_neg hne, ih hnodup.2 hmem]

/-- Fields that are all read give the record without stale arms. -/
theorem mapM_eq_clearFields {read : Component → Except WireError Value}
    (hlen : fields.length = values.length)
    (hread : ∀ pair ∈ fields.zip values,
      read pair.1 = .ok (schema.clear pair.1.type pair.2)) :
    fields.mapM read = .ok (schema.clearFields fields values) := by
  induction fields generalizing values with
  | nil =>
    rw [length_eq_zero_iff.mp hlen.symm]
    rfl
  | cons field fields ih =>
    cases values with
    | nil => cases hlen
    | cons value values =>
      rw [zip_cons_cons, forall_mem_cons] at hread
      rw [mapM_cons, hread.1, ih (succ.inj hlen) hread.2, clearFields]
      rfl

/-! ### Arms -/

/-- An arm of another name is passed over. -/
theorem armToJson_cons_of_ne {arm} {component : Component} (hne : component.name ≠ arm)
    (components : List Component) (place : Option Value) (held : List (Option Value)) :
    schema.armToJson arm (component :: components) ((place :: held).map ofOption) =
      schema.armToJson arm components (held.map ofOption) := by
  cases place <;> simp [armToJson, ofOption, hne]

/-- The structural form of a union holds the selected arm, if that is there,
and no other. -/
theorem armToJson_eq_nil_or_singleton (arm : String) (components : List Component)
    (held : List (Option Value)) : schema.armToJson arm components (held.map ofOption) = [] ∨
      ∃ component value, (component, some value) ∈ components.zip held ∧
      component.name = arm ∧
        schema.armToJson arm components (held.map ofOption) =
          [(arm, schema.toJson component.type value)] := by
  induction components generalizing held with
  | nil => exact .inl (by simp [armToJson])
  | cons component components ih =>
    cases held with
    | nil => exact .inl rfl
    | cons place held =>
      by_cases hname : component.name = arm
      · cases place with
        | none => exact .inl (by simp [armToJson, ofOption, hname])
        | some value =>
          exact .inr ⟨component, value, mem_cons_self,
            hname, by simp [armToJson, ofOption, hname]⟩
      · rw [armToJson_cons_of_ne hname]
        rcases ih held with hnil | ⟨other, value, hmem, hother, hform⟩
        · exact .inl hnil
        · exact .inr ⟨other, value, mem_cons_of_mem _ hmem, hother, hform⟩

/-- The members of a union with distinct names are its discriminant and what
the selected arm holds. -/
theorem toJson_union {decl tag} {held : List (Option Value)}
    (hdecl : schema.find? name = some (.union decl))
    (hnodup : (union decl).keys.Nodup) :
    schema.toJson (.named name) (.union tag (held.map ofOption)) =
      .object ((decl.tag.name, schema.toJson decl.tag.type tag) ::
        match decl.select tag with
        | some arm => schema.armToJson arm decl.arms (held.map ofOption)
        | none => []) := by
  simp only [toJson, hdecl]
  refine congrArg object (insertAll_nil ?_)
  cases decl.select tag with
  | none => exact nodup_singleton _
  | some arm =>
    dsimp only
    rcases schema.armToJson_eq_nil_or_singleton arm decl.arms held with
      hnil | ⟨component, value, hmem, rfl, hform⟩
    · rw [hnil]
      exact nodup_singleton _
    · have hne : decl.tag.name ≠ component.name := fun hname => (nodup_cons.mp hnodup).1
        (mem_map.mpr ⟨component, (of_mem_zip hmem).1, hname.symm⟩)
      rw [hform]
      simpa using hne

/-- Only what the selected arm holds is part of the structural form. -/
theorem armToJson_eq_toList {components : List Component} {component place held}
    (hnodup : (components.map Component.name).Nodup)
    (hmem : (component, place) ∈ components.zip held) :
    schema.armToJson component.name components (held.map ofOption) =
      (place.map fun value =>
        (component.name, schema.toJson component.type value)).toList := by
  obtain ⟨others, later, heq⟩ :=
    exists_eq_selected (f := schema.armToJson component.name) hnodup hmem armToJson_cons_of_ne
  rw [heq]
  cases place <;> simp [armToJson, ofOption]

/-! ### Values -/

section

variable {limit : Nat}

/-- The value is read back, by a reader that has enough names left. -/
def Recovers (schema : Schema) (limit : Nat) (type : Ty) (value : Value) : Prop :=
  (schema.toJson type value).depth < limit →
    type.ofJson (schema.ofJsonNamed limit) (schema.toJson type value) =
      .ok (schema.clear type value)

/-- What may be absent is read back, if what it holds is. -/
theorem ofJson_optional {item : Ty} {json} (hnull : json ≠ .null)
    (h : item.ofJson (schema.ofJsonNamed limit) json = .ok value) :
    (Ty.optional item).ofJson (schema.ofJsonNamed limit) json = .ok (.present value) := by
  rw [Ty.ofJson, h]
  · rfl
  · exact hnull

/-- Items are read back, if each of them is. -/
theorem mapM_itemsToJson {item items}
    (h : ∀ value ∈ items, schema.Recovers limit item value)
    (hlimit : (array (schema.itemsToJson item items)).depth < limit) :
    (schema.itemsToJson item items).mapM (item.ofJson (schema.ofJsonNamed limit)) =
      .ok (schema.clearItems item items) := by
  rw [depth] at hlimit
  rw [clearItems_eq_map]
  rw [itemsToJson_eq_map] at hlimit ⊢
  refine mapM_map_eq_ok fun value hvalue => h value hvalue ?_
  have hmem : schema.toJson item value ∈ items.map (schema.toJson item) :=
    mem_map_of_mem hvalue
  have hdepth := depth_le_depthItems hmem
  omega

/-- The members of a record are read back as its fields, if each of them is.
-/
theorem ofMembers_fieldsToJson (hlen : fields.length = values.length)
    (hnodup : (fields.map Component.name).Nodup)
    (h : ∀ pair ∈ fields.zip values, schema.Recovers limit pair.1.type pair.2)
    (hlimit : depthMembers (schema.fieldsToJson fields values) < limit) :
    fields.mapM (ofMembers (schema.ofJsonNamed limit) schema.default
      (schema.fieldsToJson fields values)) = .ok (schema.clearFields fields values) := by
  refine mapM_eq_clearFields hlen fun pair hpair => ?_
  have hfind : (schema.fieldsToJson fields values).find? pair.1.name =
      some (schema.toJson pair.1.type pair.2) := find?_fieldsToJson hnodup hpair
  have hdepth := depth_le_depthMembers hfind
  rw [ofMembers, hfind]
  exact h pair hpair (by omega)

/-- A union has the form of an object. -/
theorem exists_members_of_union {decl tag} (hdecl : schema.find? name = some (.union decl)) :
    ∃ members, schema.toJson (.named name) (.union tag values) = .object members := by
  simp only [toJson, hdecl]
  exact ⟨_, rfl⟩

/-- A union is read back from its discriminant and the arm it selects, if
each of them is read back. -/
theorem ofMembers_union {decl : UnionDef} {tag : Value} {held : List (Option Value)}
    {members : Table Json} (hdecl : schema.find? name = some (.union decl))
    (hmembers : schema.toJson (.named name) (.union tag (held.map ofOption)) =
      .object members)
    (hlen : decl.arms.length = held.length) (hnodup : (union decl).keys.Nodup)
    (htag : schema.Recovers limit decl.tag.type tag)
    (harms : ∀ pair ∈ decl.arms.zip held, ∀ value ∈ pair.2,
      schema.Recovers limit pair.1.type value)
    (hlimit : depthMembers members < limit) :
    decl.ofMembers (schema.ofJsonNamed limit) schema.default members =
      .ok (.union (schema.clear decl.tag.type tag)
        (schema.clearArms (decl.select tag) decl.arms (held.map ofOption))) := by
  have hkeys : (decl.tag.name :: decl.arms.map Component.name).Nodup := hnodup
  rw [nodup_cons] at hkeys
  simp only [toJson_union hdecl hnodup, object.injEq] at hmembers
  have hfindTag : members.find? decl.tag.name = some (schema.toJson decl.tag.type tag) := by
    rw [← hmembers, Table.find?_cons, if_pos rfl]
  have hdepthTag := depth_le_depthMembers hfindTag
  have hread : decl.tag.ofMembers (schema.ofJsonNamed limit) schema.default members =
      .ok (schema.clear decl.tag.type tag) := by
    rw [Component.ofMembers, hfindTag]
    exact htag (by omega)
  rw [UnionDef.ofMembers, hread]
  simp only [bind, Except.bind, select_clear]
  cases hfind : decl.arms.find? fun component => some component.name == decl.select tag with
  | none =>
    have hnames : ∀ arm ∈ decl.arms, some arm.name ≠ decl.select tag := by
      simpa [find?_eq_none] using hfind
    rw [clearArms_of_not_selected hlen hnames]
    rfl
  | some component =>
    have hfound := find?_some hfind
    have harm : decl.select tag = some component.name := (beq_iff_eq.mp hfound).symm
    rw [harm] at hfind ⊢
    obtain ⟨place, hmem⟩ := exists_place hlen (mem_of_find?_eq_some hfind)
    have hform := @armToJson_eq_toList schema _ _ _ _ hkeys.2 hmem
    have hother : component.name ≠ decl.tag.name :=
      fun h => hkeys.1 (h ▸ mem_map_of_mem (of_mem_zip hmem).1)
    have hfindArm : members.find? component.name =
        place.map (schema.toJson component.type) := by
      simp only [harm, hform] at hmembers
      rw [← hmembers, Table.find?_cons, if_neg hother]
      cases place with
      | none => rfl
      | some value => exact (find?_cons _ _ _).trans (if_pos rfl)
    have hreadArm : component.armOfMembers (schema.ofJsonNamed limit) members =
        .ok (ofOption (place.map (schema.clear component.type))) := by
      rw [Component.armOfMembers, hfindArm]
      cases place with
      | none => rfl
      | some value =>
        have hdepth := depth_le_depthMembers hfindArm
        have hvalue := harms _ hmem value rfl (lt_of_le_of_lt hdepth hlimit)
        simp only [Option.map_some, hvalue]
        rfl
    rw [clearArms_eq_map hkeys.2 hmem hlen]
    simp only [hreadArm]
    rfl

end

/-- A member of an enumeration is read back from its name. -/
theorem ofJson_member {decl number} (hnodup : (enumeration decl).keys.Nodup) {found}
    (hfound : decl.byNumber? number = some found) :
    decl.ofJson name (.string found.1) = .ok (.member number) := by
  have hnumber : found.2 = number := by simpa using find?_some hfound
  have hmem : found ∈ decl.members := mem_of_find?_eq_some hfound
  have hname : decl.byName? found.1 = some found := by
    cases hother : decl.byName? found.1 with
    | none => exact absurd (find?_eq_none.mp hother found hmem) (by simp)
    | some other =>
      have hsame : other.1 = found.1 := by simpa using find?_some hother
      rw [inj_on_of_nodup_map hnodup (mem_of_find?_eq_some hother) hmem hsame]
  rw [EnumDef.ofJson, hname, ← hnumber]

/-- **A value is read back from its structural form**, without its stale
arms. -/
theorem HasType.ofJson_toJson (hschema : schema.Definite) (h : schema.HasType type value)
    (hfinite : value.isFinite = true) (htype : type.isDefinite = true) (limit : Nat) :
    schema.Recovers limit type value := by
  intro hlimit
  induction h generalizing limit with
  | void => rfl
  | bool value => rfl
  | int value => rw [toJson, Ty.ofJson, Json.int32_toInt]; rfl
  | uint value =>
    have hlt : value.toNat < 2 ^ 32 := value.toNat_lt
    rw [toJson, Ty.ofJson, Json.nat, Json.intWithin_int _ (by omega) (by omega), Except.map,
      Int.toNat_natCast, UInt32.ofNat_toNat]
    rfl
  | hyper value =>
    have hleast : -0x8000000000000000 ≤ value.toInt := value.le_toInt
    have hgreatest : value.toInt < 0x8000000000000000 := value.toInt_lt
    rw [toJson, Ty.ofJson, Json.intWithin_int _ hleast (by omega), Except.map,
      Int64.ofInt_toInt]
    rfl
  | uhyper value =>
    have hlt : value.toNat < 2 ^ 64 := value.toNat_lt
    rw [toJson, Ty.ofJson, Json.nat, Json.intWithin_int _ (by omega) (by omega), Except.map,
      Int.toNat_natCast, UInt64.ofNat_toNat]
    rfl
  | float bits =>
    obtain ⟨hwide, hback⟩ := Json.narrow_widen hfinite
    rw [toJson, Json.ofDouble_of_isFinite hwide]
    simp only [Ty.ofJson, Json.double?, hback]
    rfl
  | double bits => rw [toJson, Json.ofDouble_of_isFinite hfinite]; rfl
  | text limit value => rfl
  | fixedText length value => rfl
  | bytes _ value | fixedBytes _ value =>
    rw [toJson, Ty.ofJson]
    simp only [Json.items, bind, Except.bind, Json.mapM_byte]
    rfl
  | array _ _ ih | fixedArray _ _ ih =>
    rw [isFinite, allFinite_iff] at hfinite
    rw [toJson] at hlimit ⊢
    have hitems := mapM_itemsToJson
      (fun value hvalue => ih value hvalue (hfinite value hvalue) htype limit) hlimit
    simp only [Ty.ofJson, Json.items, bind, Except.bind, hitems]
    rfl
  | absent item => rfl
  | present hvalue ih =>
    rw [Ty.isDefinite, Bool.and_eq_true, Bool.not_eq_true'] at htype
    rw [toJson] at hlimit ⊢
    rw [clear]
    exact ofJson_optional (hvalue.toJson_ne_null hfinite htype.1) (ih hfinite htype.2 limit hlimit)
  | member hdecl hmember =>
    obtain ⟨found, hfound⟩ := Option.isSome_iff_exists.mp hmember
    obtain ⟨limit, rfl⟩ : ∃ count, limit = count + 1 := ⟨limit - 1, by omega⟩
    simp only [toJson, hdecl, hfound, Ty.ofJson, ofJsonNamed, TypeDef.ofJson]
    rw [ofJson_member (hschema hdecl).nodup hfound]
    rfl
  | record hdecl hlen _ ih =>
    rw [isFinite, allFinite_iff] at hfinite
    rw [toJson_record hdecl hlen (hschema hdecl).nodup] at hlimit ⊢
    rw [Json.depth] at hlimit
    obtain ⟨limit, rfl⟩ : ∃ count, limit = count + 1 := ⟨limit - 1, by omega⟩
    have hfields := ofMembers_fieldsToJson hlen (hschema hdecl).nodup
      (fun pair hpair => ih pair hpair (hfinite _ (of_mem_zip hpair).2)
        ((hschema hdecl).components _ (of_mem_zip hpair).1) limit)
      (lt_of_succ_lt_succ hlimit)
    simp only [Ty.ofJson, ofJsonNamed, hdecl, TypeDef.ofJson, Json.members, bind, Except.bind,
      hfields, clear]
    rfl
  | union hdecl _ hlen _ ihtag iharms =>
    rw [isFinite, Bool.and_eq_true, allFinite_iff] at hfinite
    obtain ⟨members, hmembers⟩ := exists_members_of_union hdecl
    rw [hmembers] at hlimit ⊢
    rw [Json.depth] at hlimit
    obtain ⟨limit, rfl⟩ : ∃ count, limit = count + 1 := ⟨limit - 1, by omega⟩
    have hunion := ofMembers_union hdecl hmembers hlen (hschema hdecl).nodup
      (ihtag hfinite.1 ((hschema hdecl).components _ mem_cons_self) limit)
      (fun pair hpair value hvalue => iharms pair hpair value hvalue
        (hfinite.2 (.present value)
          (mem_map.mpr ⟨pair.2, (of_mem_zip hpair).2, congrArg ofOption hvalue⟩))
        ((hschema hdecl).components _ (mem_cons_of_mem _ (of_mem_zip hpair).1)) limit)
      (lt_of_succ_lt_succ hlimit)
    simp only [Ty.ofJson, ofJsonNamed, hdecl, TypeDef.ofJson, Json.members, bind, Except.bind,
      hunion, clear]

/-- **Reading the structural form of a value.**  What is read is the value
without its stale arms. -/
theorem ofJson_toJson (hschema : schema.Definite) (hvalue : schema.HasType type value)
    (hfinite : value.isFinite = true) (htype : type.isDefinite = true) :
    schema.ofJson type (schema.toJson type value) = .ok (schema.clear type value) :=
  hvalue.ofJson_toJson hschema hfinite htype _ (lt_succ_self _)

end Schema
end Xdr
