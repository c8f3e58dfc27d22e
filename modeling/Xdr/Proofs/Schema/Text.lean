import Xdr.Proofs.Json.Text
import Xdr.Proofs.Schema.Structural

/-!
# The text of a value

Values without binary numbers come back from their texts, if their
structural forms are not nested too deeply, whatever package for JSON writes
and reads the texts.

## Main Statements

* `Schema.HasType.plain_toJson` — the structural forms of such values are
  plain
* `Schema.ofText_toText` — reading the text of a value
-/

namespace Xdr

open Json List

/-- No binary number occurs in a type, apart from named types. -/
def Ty.isFloatless : Ty → Bool
  | .float | .double => false
  | .array item _ | .fixedArray item _ | .optional item => item.isFloatless
  | _ => true

namespace Schema

variable {type : Ty} {value : Value}

/-- No binary number occurs in the declarations of a schema. -/
def Floatless (schema : Schema) : Prop :=
  ∀ {name decl}, schema.find? name = some decl →
    ∀ component ∈ decl.components, component.type.isFloatless = true

variable {schema : Schema}

/-- A value without binary numbers has no number that is not finite. -/
theorem HasType.isFinite (hschema : schema.Floatless) (h : schema.HasType type value)
    (htype : type.isFloatless = true) : value.isFinite = true := by
  induction h with
  | float _ | double _ => cases htype
  | array _ _ ih | fixedArray _ _ ih =>
    exact Value.allFinite_iff.mpr fun value hvalue => ih value hvalue htype
  | present _ ih => exact ih htype
  | record hdecl hlen _ ih =>
    refine Value.allFinite_iff.mpr fun value hvalue => ?_
    rw [← map_snd_zip (Nat.le_of_eq hlen.symm), mem_map] at hvalue
    obtain ⟨⟨field, _⟩, hmem, rfl⟩ := hvalue
    exact ih _ hmem (hschema hdecl _ (of_mem_zip hmem).1)
  | union hdecl _ hlen _ ihtag iharms =>
    have htag := ihtag (hschema hdecl _ mem_cons_self)
    refine Bool.and_eq_true_iff.mpr ⟨htag, Value.allFinite_iff.mpr fun value hvalue => ?_⟩
    obtain ⟨place, hplace, rfl⟩ := mem_map.mp hvalue
    rw [← map_snd_zip (Nat.le_of_eq hlen.symm), mem_map] at hplace
    obtain ⟨⟨arm, _⟩, hmem, rfl⟩ := hplace
    have htype := hschema hdecl _ (mem_cons_of_mem _ (of_mem_zip hmem).1)
    cases hheld : (arm, _).2 with
    | none => rfl
    | some value => exact iharms _ hmem value hheld htype
  | _ => rfl

/-! ### Plain forms -/

theorem plain_nat {n} (h : n < 0x10000000000000000) : (nat n).Plain :=
  .int _ (by omega) (by omega)

theorem plain_record {fields : List Component} {values : List Value}
    (hnodup : (fields.map Component.name).Nodup) (hlen : fields.length = values.length)
    (hvalues : ∀ pair ∈ fields.zip values, (schema.toJson pair.1.type pair.2).Plain) :
    (object (schema.fieldsToJson fields values)).Plain := by
  rw [fieldsToJson_eq_map]
  refine .object ?_ ?_
  · rw [← map_fst_zip (Nat.le_of_eq hlen), map_map] at hnodup
    rw [map_map]
    exact hnodup
  · intro member hmember
    obtain ⟨pair, hpair, rfl⟩ := mem_map.mp hmember
    exact hvalues pair hpair

theorem plain_union {decl tag held} (hnodup : (TypeDef.union decl).keys.Nodup)
    (htag : (schema.toJson decl.tag.type tag).Plain)
    (harms : ∀ pair ∈ decl.arms.zip held, ∀ value ∈ pair.2,
      (schema.toJson pair.1.type value).Plain) (arm : String) :
    (object ((decl.tag.name, schema.toJson decl.tag.type tag) ::
      schema.armToJson arm decl.arms (held.map Value.ofOption))).Plain := by
  rcases schema.armToJson_eq_nil_or_singleton arm decl.arms held with
    hnil | ⟨component, value, hmem, rfl, hform⟩
  · rw [hnil]
    exact .object (by simp) (by simpa using htag)
  · have hne : decl.tag.name ≠ component.name := by
      intro hname
      exact (nodup_cons.mp hnodup).1 (mem_map.mpr ⟨component,
        (of_mem_zip hmem).1, hname.symm⟩)
    rw [hform]
    exact .object (by simpa using hne) (by simpa using ⟨htag, harms _ hmem value rfl⟩)

/-- **The structural form of a value without binary numbers is plain.** -/
theorem HasType.plain_toJson (hschema : schema.Definite) (hfloatless : schema.Floatless)
    (h : schema.HasType type value) (htype : type.isFloatless = true) :
    (schema.toJson type value).Plain := by
  induction h with
  | float _ | double _ => cases htype
  | void | absent _ => exact .null
  | bool value => exact .bool value
  | int value =>
    have hleast : -0x80000000 ≤ value.toInt := value.le_toInt
    have hgreatest : value.toInt < 0x80000000 := value.toInt_lt
    exact .int _ (by omega) (by omega)
  | hyper value =>
    have hleast : -0x8000000000000000 ≤ value.toInt := value.le_toInt
    have hgreatest : value.toInt < 0x8000000000000000 := value.toInt_lt
    exact .int _ hleast (by omega)
  | uint value => exact plain_nat (Nat.lt_trans value.toNat_lt (by decide))
  | uhyper value => exact plain_nat value.toNat_lt
  | text _ value | fixedText _ value => exact .string value
  | bytes _ value | fixedBytes _ value =>
    refine .array fun item hitem => ?_
    obtain ⟨byte, -, rfl⟩ := mem_map.mp hitem
    exact plain_nat (Nat.lt_trans byte.toNat_lt (by decide))
  | array _ _ ih | fixedArray _ _ ih =>
    rw [toJson, itemsToJson_eq_map]
    refine .array fun item hitem => ?_
    obtain ⟨value, hvalue, rfl⟩ := mem_map.mp hitem
    exact ih value hvalue htype
  | present _ ih => exact ih htype
  | member hdecl hmember =>
    obtain ⟨found, hfound⟩ := Option.isSome_iff_exists.mp hmember
    simp only [toJson, hdecl, hfound]
    exact .string found.1
  | record hdecl hlen _ ih =>
    rw [toJson_record hdecl hlen (hschema hdecl).nodup]
    exact plain_record (hschema hdecl).nodup hlen fun pair hpair =>
      ih pair hpair (hfloatless hdecl _ (of_mem_zip hpair).1)
  | @union _ decl tag _ hdecl _ hlen _ ihtag iharms =>
    have htag := ihtag (hfloatless hdecl _ mem_cons_self)
    rw [toJson_union hdecl (hschema hdecl).nodup]
    cases decl.select tag with
    | none => exact .object (by simp) (by simpa using htag)
    | some arm =>
      exact plain_union (hschema hdecl).nodup htag (fun pair hpair value hvalue =>
        iharms pair hpair value hvalue
          (hfloatless hdecl _ (mem_cons_of_mem _ (of_mem_zip hpair).1))) arm

/-- **Reading the text of a value** without binary numbers, by a package
that writes compactly and reads up to a limit.  The value has a text.  It
comes back from it without its stale arms, unless its structural form is
nested too deeply: then the text cannot be read. -/
theorem ofText_toText {package : Package} {limit : Nat} (hwrites : package.WritesCompactly)
    (hreads : package.ReadsUpTo limit) (hschema : schema.Definite)
    (hfloatless : schema.Floatless) (hvalue : schema.HasType type value)
    (hdefinite : type.isDefinite = true) (htype : type.isFloatless = true) :
    ∃ text, schema.toText package type value = .ok text ∧
      schema.ofText package type text =
        if (schema.toJson type value).depth ≤ limit then .ok (schema.clear type value)
        else .error .badJson := by
  have hread :
    schema.ofJson type (schema.toJson type value) = .ok (schema.clear type value) :=
    ofJson_toJson hschema hvalue (hvalue.isFinite hfloatless htype) hdefinite
  obtain ⟨text, htext, hback⟩ :=
    Package.read_write hwrites hreads (hvalue.plain_toJson hschema hfloatless htype)
  refine ⟨text, by rw [toText, htext], ?_⟩
  rw [ofText, hback]
  by_cases hdepth : (schema.toJson type value).depth ≤ limit
  · simp only [if_pos hdepth, hread]
  · simp only [if_neg hdepth]

end Schema
end Xdr
