import Mathlib.Data.List.Lex
import Mathlib.Data.List.Nodup
import Xdr.Proofs.Schema.RoundTrip

/-!
# The first fault of a value

A value that breaks a limit cannot be written.  Its parts have places, lists
of numbers that lead to them, and the order of places says which part comes
first where several break their limits.

## Main Statements

* `FirstFault.atOrInside` — a part comes before those inside it, which come
  in their order
* `Schema.Holds.unique` — a place leads to one part
* `Schema.HasType.firstFault`, `Schema.HasType.failure_eq_iff` — writing
  fails with the first fault, and only with it

## Design Notes

Places are compared as lists: a place comes before those it leads to, and
otherwise the first number in which two places differ decides.  So parts are
ordered depth first, and those of one part as they are declared.  The
selected arm of a union has a place of its own beside its content, since it
may be missing.
-/

namespace Xdr

open List Output Packed

/-! ### Parts and places -/

/-- A part of a value that may have a limit. -/
inductive Part where
  /-- A value of some type. -/
  | value (type : Ty) (value : Value)
  /-- The place of the selected arm of a union, and what it holds. -/
  | arm (union arm : String) (held : Option Value)

namespace Part

/-- The fault of a sequence with too many items; where no limit is declared,
the largest word is the limit. -/
def overLimit? (limit : Option UInt32) (found : Nat) : Option WireError :=
  if found ≤ (limit.getD noLimit).toNat then none
    else some (.tooLong (limit.getD noLimit) found)

/-- The fault of a sequence with another number of items than the one
required. -/
def wrongLength? (required : UInt32) (found : Nat) : Option WireError :=
  if found = required.toNat then none else some (.wrongLength required found)

/-- How a part breaks its limit, without regard to the parts inside it.
Texts are measured in bytes. -/
def fault? : Part → Option WireError
  | .value (.text limit) (.text text) => overLimit? limit (Text.utf8 text).length
  | .value (.bytes limit) (.bytes bytes) => overLimit? limit bytes.length
  | .value (.array _ limit) (.list items) => overLimit? limit items.length
  | .value (.fixedText length) (.text text) => wrongLength? length (Text.utf8 text).length
  | .value (.fixedBytes length) (.bytes bytes) => wrongLength? length bytes.length
  | .value (.fixedArray _ length) (.list items) => wrongLength? length items.length
  | .arm union name none => some (.missingArm union name)
  | _ => none

theorem overLimit?_eq_some_iff {limit found error} :
    overLimit? limit found = some error ↔
      (limit.getD noLimit).toNat < found ∧ .tooLong (limit.getD noLimit) found = error := by
  rw [overLimit?]
  split <;> simp <;> omega

theorem wrongLength?_eq_some_iff {required found error} :
    wrongLength? required found = some error ↔ found ≠ required.toNat ∧
      .wrongLength required found = error := by
  rw [wrongLength?]
  split
  · next hfound => simp [hfound]
  · next hfound => simp [hfound]

end Part

/-- The type of the items of a sequence. -/
def Ty.item? : Ty → Option Ty
  | .array item _ => some item
  | .fixedArray item _ => some item
  | _ => none

namespace Schema

/-- A value of a type holds a part at a place, outside of arms that are not
selected.  Items and fields have the numbers of their positions, what is
present has the number zero, the discriminant of a union zero too, and the
arm that it selects one. -/
inductive Holds (schema : Schema) : Ty → Value → List Nat → Part → Prop where
  | self (type : Ty) (value : Value) : Holds schema type value [] (.value type value)
  | item {type item : Ty} {items index value place part} (htype : type.item? = some item)
      (hitem : items[index]? = some value) (h : Holds schema item value place part) :
      Holds schema type (.list items) (index :: place) part
  | content {item value place part} (h : Holds schema item value place part) :
      Holds schema (.optional item) (.present value) (0 :: place) part
  | field {name fields values index field value place part}
      (hdecl : schema.find? name = some (.record fields))
      (hfield : (fields.zip values)[index]? = some (field, value))
      (h : Holds schema field.type value place part) :
      Holds schema (.named name) (.record values) (index :: place) part
  | tag {name decl tag values place part} (hdecl : schema.find? name = some (.union decl))
      (h : Holds schema decl.tag.type tag place part) :
      Holds schema (.named name) (.union tag values) (0 :: place) part
  | arm {name decl tag values component held} (hdecl : schema.find? name = some (.union decl))
      (harm : (component, Value.ofOption held) ∈ decl.arms.zip values)
      (hselected : decl.select tag = some component.name) :
      Holds schema (.named name) (.union tag values) [1] (.arm name component.name held)
  | selected {name decl tag values component value place part}
      (hdecl : schema.find? name = some (.union decl))
      (harm : (component, Value.present value) ∈ decl.arms.zip values)
      (hselected : decl.select tag = some component.name)
      (h : Holds schema component.type value place part) :
      Holds schema (.named name) (.union tag values) (1 :: 0 :: place) part

end Schema

/-! ### The first fault -/

/-- What the first part at fault is: none if no part is at fault, and
otherwise a fault of a part such that no part at an earlier place is at
fault. -/
def FirstFault (holds : List Nat → Part → Prop) : Option WireError → Prop
  | none => ∀ place part, holds place part → part.fault? = none
  | some error => ∃ place part, holds place part ∧ part.fault? = some error ∧
      ∀ earlier other, holds earlier other → earlier < place → other.fault? = none

/-- The parts inside a part: those of its children, at the places of which
the first number is that of the child. -/
def Inside (children : List (List Nat → Part → Prop)) (place : List Nat)
    (part : Part) : Prop :=
  ∃ index rest child, place = index :: rest ∧ children[index]? = some child ∧ child rest part

/-- A part and the parts inside it. -/
def AtOrInside (root : Part) (children : List (List Nat → Part → Prop)) (place : List Nat)
    (part : Part) : Prop :=
  (place = [] ∧ part = root) ∨ Inside children place part

section Places

variable {children : List (List Nat → Part → Prop)} {child : List Nat → Part → Prop}
variable {place : List Nat} {part : Part}

theorem not_inside_nil : ¬ Inside [] place part := by
  rintro ⟨index, rest, child, -, hchild, -⟩
  cases hchild

theorem not_inside_self : ¬ Inside children [] part := by
  rintro ⟨index, rest, child, hplace, -⟩
  cases hplace

@[simp] theorem inside_cons_zero :
    Inside (child :: children) (0 :: place) part ↔ child place part := by
  simp [Inside]

@[simp] theorem inside_cons_succ {index} :
    Inside (child :: children) ((index + 1) :: place) part ↔
      Inside children (index :: place) part := by
  simp [Inside]

theorem inside_singleton :
    Inside [child] place part ↔ ∃ rest, place = 0 :: rest ∧ child rest part := by
  constructor
  · rintro ⟨index, rest, found, rfl, hchild, h⟩
    cases index with
    | zero => cases hchild; exact ⟨rest, rfl, h⟩
    | succ index => cases hchild
  · rintro ⟨rest, rfl, h⟩
    exact inside_cons_zero.mpr h

theorem inside_pair {second} : Inside [child, second] place part ↔
    (∃ rest, place = 0 :: rest ∧ child rest part) ∨ ∃ rest,
    place = 1 :: rest ∧ second rest part := by
  constructor
  · rintro ⟨index, rest, found, rfl, hchild, h⟩
    cases index with
    | zero => cases hchild; exact .inl ⟨rest, rfl, h⟩
    | succ index =>
      obtain ⟨others, hplace, hothers⟩ :=
        inside_singleton.mp ⟨index, rest, found, rfl, hchild, h⟩
      cases hplace
      exact .inr ⟨rest, rfl, hothers⟩
  · rintro (⟨rest, rfl, h⟩ | ⟨rest, rfl, h⟩)
    · exact inside_cons_zero.mpr h
    · exact inside_cons_succ.mpr (inside_cons_zero.mpr h)

theorem FirstFault.of_iff {holds holds' fault} (h : FirstFault holds fault)
    (hiff : ∀ place part, holds' place part ↔ holds place part) :
    FirstFault holds' fault := by
  obtain rfl : holds' = holds := funext fun place => funext fun part =>
    propext (hiff place part)
  exact h

theorem firstFault_inside_nil : FirstFault (Inside []) none :=
  fun _ _ h => absurd h not_inside_nil

/-- The faults of the first child come before those of the others. -/
theorem FirstFault.inside_cons {first others} (hchild : FirstFault child first)
    (hchildren : FirstFault (Inside children) others) :
    FirstFault (Inside (child :: children)) (first.or others) := by
  cases first with
  | some error =>
    obtain ⟨place, part, hpart, hfault, hearlier⟩ := hchild
    refine ⟨0 :: place, part, inside_cons_zero.mpr hpart, hfault, ?_⟩
    intro earlier other hother hlt
    cases earlier with
    | nil => exact absurd hother not_inside_self
    | cons index rest =>
      rcases cons_lt_cons_iff.mp hlt with hindex | ⟨rfl, hrest⟩
      · exact absurd hindex (Nat.not_lt_zero _)
      · exact hearlier rest other (inside_cons_zero.mp hother) hrest
  | none =>
    have hfirst : ∀ place part, child place part → part.fault? = none := hchild
    cases others with
    | none =>
      intro place part hpart
      cases place with
      | nil => exact absurd hpart not_inside_self
      | cons index rest =>
        cases index with
        | zero => exact hfirst rest part (inside_cons_zero.mp hpart)
        | succ index => exact hchildren (index :: rest) part (inside_cons_succ.mp hpart)
    | some error =>
      obtain ⟨place, part, hpart, hfault, hearlier⟩ := hchildren
      cases place with
      | nil => exact absurd hpart not_inside_self
      | cons index rest =>
        refine ⟨(index + 1) :: rest, part, inside_cons_succ.mpr hpart, hfault, ?_⟩
        intro earlier other hother hlt
        cases earlier with
        | nil => exact absurd hother not_inside_self
        | cons before place =>
          cases before with
          | zero => exact hfirst place other (inside_cons_zero.mp hother)
          | succ before =>
            refine hearlier (before :: place) other (inside_cons_succ.mp hother) ?_
            simpa [cons_lt_cons_iff] using hlt

/-- **A part comes before those inside it.** -/
theorem FirstFault.atOrInside {inner : Option WireError}
    (h : FirstFault (Inside children) inner) (root : Part) :
    FirstFault (AtOrInside root children) (root.fault?.or inner) := by
  cases hroot : root.fault? with
  | some error =>
    refine ⟨[], root, .inl ⟨rfl, rfl⟩, hroot, ?_⟩
    intro earlier other _ hlt
    exact absurd hlt (not_lt_nil _)
  | none =>
    cases inner with
    | none =>
      rintro place part (⟨-, rfl⟩ | hpart)
      · exact hroot
      · exact h place part hpart
    | some error =>
      obtain ⟨place, part, hpart, hfault, hearlier⟩ := h
      refine ⟨place, part, .inr hpart, hfault, ?_⟩
      rintro earlier other (⟨-, rfl⟩ | hother) hlt
      · exact hroot
      · exact hearlier earlier other hother hlt

/-- There is one first fault, if a place leads to one part. -/
theorem FirstFault.unique {holds first second}
    (hunique : ∀ {place part other}, holds place part → holds place other → other = part)
    (hfirst : FirstFault holds first) (hsecond : FirstFault holds second) :
    first = second := by
  cases first with
  | none =>
    cases second with
    | none => rfl
    | some error =>
      obtain ⟨place, part, hpart, hfault, -⟩ := hsecond
      exact (hfirst place part hpart).symm.trans hfault
  | some error =>
    obtain ⟨place, part, hpart, hfault, hearlier⟩ := hfirst
    cases second with
    | none => exact hfault.symm.trans (hsecond place part hpart)
    | some error' =>
      obtain ⟨place', part', hpart', hfault', hearlier'⟩ := hsecond
      rcases lt_trichotomy place place' with hlt | rfl | hlt
      · exact absurd (hfault.symm.trans (hearlier' place part hpart hlt))
          (Option.some_ne_none _)
      · rw [← hfault, ← hfault', hunique hpart hpart']
      · exact absurd (hfault'.symm.trans (hearlier place' part' hpart' hlt))
          (Option.some_ne_none _)

end Places

/-! ### Values -/

theorem Packed.failure_counted (limit : Option UInt32) (found : Nat) (items : Packed) :
    (counted limit found items).failure = (Part.overLimit? limit found).or items.failure := by
  rw [counted, Part.overLimit?]
  split <;> rfl

theorem Packed.failure_fixed (required : UInt32) (found : Nat) (items : Packed) :
    (fixed required found items).failure =
      (Part.wrongLength? required found).or items.failure := by
  rw [fixed, Part.wrongLength?]
  split <;> rfl

theorem Packed.failure_blob (limit : Option UInt32) (bytes : List UInt8) :
    (blob limit bytes).failure = Part.overLimit? limit bytes.length := by
  rw [blob, failure_counted]
  exact Option.or_none

theorem Packed.failure_fixedBlob (required : UInt32) (bytes : List UInt8) :
    (fixedBlob required bytes).failure = Part.wrongLength? required bytes.length := by
  rw [fixedBlob, failure_fixed]
  exact Option.or_none

theorem Value.ofOption_injective : Function.Injective Value.ofOption := by
  rintro (_ | first) (_ | second) h
  · rfl
  · cases h
  · cases h
  · cases h; rfl

namespace Schema

variable {schema : Schema} {type item : Ty} {value tag : Value} {name : String}
    {values : List Value} {decl : UnionDef}

/-- A value that holds no part but itself. -/
theorem firstFault_leaf
    (h : ∀ place part,
      schema.Holds type value place part → place = [] ∧ part = .value type value) :
    FirstFault (schema.Holds type value) (Part.value type value).fault? := by
  have hparts := firstFault_inside_nil.atOrInside (.value type value)
  rw [Option.or_none] at hparts
  refine hparts.of_iff fun place part => ⟨fun hpart => .inl (h place part hpart), ?_⟩
  rintro (⟨rfl, rfl⟩ | hpart)
  · exact .self type value
  · exact absurd hpart not_inside_nil

theorem holds_list {items} (htype : type.item? = some item) (place : List Nat) (part : Part) :
    schema.Holds type (.list items) place part ↔
      AtOrInside (.value type (.list items)) (items.map (schema.Holds item)) place part := by
  constructor
  · intro h
    cases h with
    | self => exact .inl ⟨rfl, rfl⟩
    | item htype' hitem h =>
      cases htype.symm.trans htype'
      exact .inr ⟨_, _, _, rfl, by rw [getElem?_map, hitem]; rfl, h⟩
  · rintro (⟨rfl, rfl⟩ | ⟨index, rest, child, rfl, hchild, h⟩)
    · exact .self _ _
    · rw [getElem?_map] at hchild
      obtain ⟨value, hitem, rfl⟩ := Option.map_eq_some_iff.mp hchild
      exact .item htype hitem h

theorem holds_present (place : List Nat) (part : Part) :
    schema.Holds (.optional item) (.present value) place part ↔
      AtOrInside (.value (.optional item) (.present value))
        [schema.Holds item value] place part := by
  constructor
  · intro h
    cases h with
    | self => exact .inl ⟨rfl, rfl⟩
    | content h => exact .inr (inside_cons_zero.mpr h)
  · rintro (⟨rfl, rfl⟩ | h)
    · exact .self _ _
    · obtain ⟨rest, rfl, hrest⟩ := inside_singleton.mp h
      exact .content hrest

theorem holds_record {fields} (hdecl : schema.find? name = some (.record fields))
    (place : List Nat) (part : Part) :
    schema.Holds (.named name) (.record values) place part ↔
      AtOrInside (.value (.named name) (.record values))
        ((fields.zip values).map fun pair => schema.Holds pair.1.type pair.2) place part := by
  constructor
  · intro h
    cases h with
    | self => exact .inl ⟨rfl, rfl⟩
    | field hdecl' hfield h =>
      cases hdecl.symm.trans hdecl'
      exact .inr ⟨_, _, _, rfl, by rw [getElem?_map, hfield]; rfl, h⟩
  · rintro (⟨rfl, rfl⟩ | ⟨index, rest, child, rfl, hchild, h⟩)
    · exact .self _ _
    · rw [getElem?_map] at hchild
      obtain ⟨⟨field, value⟩, hfield, rfl⟩ := Option.map_eq_some_iff.mp hchild
      exact .field hdecl hfield h

/-- Arms of one name are one arm, with one place. -/
theorem eq_of_mem_zip_arms {components : List Component}
    (hnodup : (components.map Component.name).Nodup) {first second}
    (hfirst : first ∈ components.zip values) (hsecond : second ∈ components.zip values)
    (hname : first.1.name = second.1.name) : first = second := by
  have hfront : (components.zip values).map Prod.fst =
    components.take (min components.length values.length) := by
    rw [zip_eq_zip_take_min, map_fst_zip (by simp)]
  have hnames : ((components.zip values).map (Component.name ∘ Prod.fst)).Nodup := by
    rw [← map_map, hfront]
    exact hnodup.sublist ((take_sublist _ _).map _)
  exact inj_on_of_nodup_map hnames hfirst hsecond hname

/-- A place leads to one part. -/
theorem Holds.unique (hschema : schema.WellFormed) {place part}
    (h : schema.Holds type value place part) {other}
    (hother : schema.Holds type value place other) : other = part := by
  induction h with
  | self type value =>
    cases hother
    rfl
  | item htype hitem _ ih =>
    cases hother with
    | item htype' hitem' hother =>
      cases htype.symm.trans htype'
      obtain rfl := Option.some.inj (hitem.symm.trans hitem')
      exact ih hother
  | content _ ih =>
    cases hother with
    | content hother => exact ih hother
  | field hdecl hfield _ ih =>
    cases hother with
    | field hdecl' hfield' hother =>
      cases hdecl.symm.trans hdecl'
      cases hfield.symm.trans hfield'
      exact ih hother
  | tag hdecl _ ih =>
    cases hother with
    | tag hdecl' hother =>
      cases hdecl.symm.trans hdecl'
      exact ih hother
  | arm hdecl harm hselected =>
    cases hother with
    | arm hdecl' harm' hselected' =>
      cases hdecl.symm.trans hdecl'
      obtain ⟨rfl, hheld⟩ :=
        Prod.mk.inj (eq_of_mem_zip_arms (hschema.nodup_arms hdecl) harm' harm
          (Option.some.inj (hselected'.symm.trans hselected)))
      rw [Value.ofOption_injective hheld]
  | selected hdecl harm hselected _ ih =>
    cases hother with
    | selected hdecl' harm' hselected' hother =>
      cases hdecl.symm.trans hdecl'
      cases eq_of_mem_zip_arms (hschema.nodup_arms hdecl) harm' harm
        (Option.some.inj (hselected'.symm.trans hselected))
      exact ih hother

/-- A union of which no arm is selected holds its discriminant only. -/
theorem holds_union_unselected (hdecl : schema.find? name = some (.union decl))
    (hselected : ∀ component ∈ decl.arms, decl.select tag ≠ some component.name)
    (values : List Value) (place : List Nat) (part : Part) :
    schema.Holds (.named name) (.union tag values) place part ↔
      AtOrInside (.value (.named name) (.union tag values))
        [schema.Holds decl.tag.type tag] place part := by
  constructor
  · intro h
    cases h with
    | self => exact .inl ⟨rfl, rfl⟩
    | tag hdecl' h =>
      cases hdecl.symm.trans hdecl'
      exact .inr (inside_cons_zero.mpr h)
    | arm hdecl' harm hselected' =>
      cases hdecl.symm.trans hdecl'
      exact absurd hselected' (hselected _ (of_mem_zip harm).1)
    | selected hdecl' harm hselected' =>
      cases hdecl.symm.trans hdecl'
      exact absurd hselected' (hselected _ (of_mem_zip harm).1)
  · rintro (⟨rfl, rfl⟩ | h)
    · exact .self _ _
    · obtain ⟨rest, rfl, hrest⟩ := inside_singleton.mp h
      exact .tag hdecl hrest

/-- A union of which an arm is selected holds its discriminant, and then the
place of that arm. -/
theorem holds_union_selected {component held} (hdecl : schema.find? name = some (.union decl))
    (hnodup : (decl.arms.map Component.name).Nodup)
    (harm : (component, Value.ofOption held) ∈ decl.arms.zip values)
    (hselected : decl.select tag = some component.name) (place : List Nat) (part : Part) :
    schema.Holds (.named name) (.union tag values) place part ↔
      AtOrInside (.value (.named name) (.union tag values)) [schema.Holds decl.tag.type tag,
        AtOrInside (.arm name component.name held)
          (held.toList.map (schema.Holds component.type))] place part := by
  have hunique : ∀ {other : Component × Value}, other ∈ decl.arms.zip values →
      decl.select tag = some other.1.name → other = (component, Value.ofOption held) := by
    intro other hother hname
    exact eq_of_mem_zip_arms hnodup hother harm (Option.some.inj (hname.symm.trans hselected))
  constructor
  · intro h
    cases h with
    | self => exact .inl ⟨rfl, rfl⟩
    | tag hdecl' h =>
      cases hdecl.symm.trans hdecl'
      exact .inr (inside_cons_zero.mpr h)
    | arm hdecl' harm' hselected' =>
      cases hdecl.symm.trans hdecl'
      obtain ⟨rfl, hheld⟩ := Prod.mk.inj (hunique harm' hselected')
      obtain rfl := Value.ofOption_injective hheld
      exact .inr (inside_pair.mpr (.inr ⟨[], rfl, .inl ⟨rfl, rfl⟩⟩))
    | @selected _ _ _ _ other value rest _ hdecl' harm' hselected' h =>
      cases hdecl.symm.trans hdecl'
      obtain ⟨rfl, hheld⟩ := Prod.mk.inj (hunique harm' hselected')
      obtain rfl : some value = held := Value.ofOption_injective hheld
      exact .inr (inside_pair.mpr (.inr ⟨0 :: rest, rfl, .inr (inside_cons_zero.mpr h)⟩))
  · rintro (⟨rfl, rfl⟩ | h)
    · exact .self _ _
    · rcases inside_pair.mp h with ⟨rest, rfl, hrest⟩ | ⟨rest, rfl, ⟨rfl, rfl⟩ | hrest⟩
      · exact .tag hdecl hrest
      · exact .arm hdecl harm hselected
      · cases held with
        | none => exact absurd hrest not_inside_nil
        | some value =>
          obtain ⟨inner, rfl, hinner⟩ := inside_singleton.mp hrest
          exact .selected hdecl harm hselected hinner

/-! ### What writing fails with -/

theorem firstFault_items {items}
    (h : ∀ value ∈ items,
      FirstFault (schema.Holds item value) (schema.encode item value).failure) :
    FirstFault (Inside (items.map (schema.Holds item)))
      (schema.encodeItems item items).failure := by
  induction items with
  | nil => exact firstFault_inside_nil
  | cons value values ih =>
    rw [forall_mem_cons] at h
    rw [encodeItems, failure_andThen_eq]
    exact h.1.inside_cons (ih h.2)

theorem firstFault_fields {fields : List Component} (hlen : fields.length = values.length)
    (h : ∀ pair ∈ fields.zip values, FirstFault (schema.Holds pair.1.type pair.2)
      (schema.encode pair.1.type pair.2).failure) :
    FirstFault (Inside ((fields.zip values).map fun pair => schema.Holds pair.1.type pair.2))
      (schema.encodeFields fields values).failure := by
  induction fields generalizing values with
  | nil =>
    rw [length_eq_zero_iff.mp hlen.symm]
    exact firstFault_inside_nil
  | cons field fields ih =>
    cases values with
    | nil => cases hlen
    | cons value values =>
      rw [zip_cons_cons, forall_mem_cons] at h
      rw [encodeFields, failure_andThen_eq]
      exact h.1.inside_cons (ih (Nat.succ.inj hlen) h.2)

/-- The place of the selected arm is at fault where it holds nothing. -/
theorem firstFault_arm (union : String) {component : Component} {place}
    (h : ∀ value ∈ place, FirstFault (schema.Holds component.type value)
      (schema.encode component.type value).failure) :
    FirstFault (AtOrInside (.arm union component.name place)
      (place.toList.map (schema.Holds component.type)))
      (place.elim (.failed (.missingArm union component.name))
        (schema.encode component.type)).failure := by
  cases place with
  | none => exact firstFault_inside_nil.atOrInside (.arm union component.name none)
  | some value =>
    have hcontent := (h value rfl).inside_cons firstFault_inside_nil
    have hparts := hcontent.atOrInside (.arm union component.name (some value))
    rwa [Option.or_none] at hparts

theorem firstFault_union {held : List (Option Value)}
    (hdecl : schema.find? name = some (.union decl))
    (hnodup : (decl.arms.map Component.name).Nodup) (hlen : decl.arms.length = held.length)
    (htag :
      FirstFault (schema.Holds decl.tag.type tag) (schema.encode decl.tag.type tag).failure)
    (harms : ∀ pair ∈ decl.arms.zip held, ∀ value ∈ pair.2,
      FirstFault (schema.Holds pair.1.type value) (schema.encode pair.1.type value).failure) :
    FirstFault (schema.Holds (.named name) (.union tag (held.map Value.ofOption)))
      (schema.encode (.named name) (.union tag (held.map Value.ofOption))).failure := by
  simp only [encode, hdecl]
  rw [failure_andThen_eq]
  by_cases hselected : ∃ component ∈ decl.arms, decl.select tag = some component.name
  · obtain ⟨component, hcomponent, hselected⟩ := hselected
    obtain ⟨place, harm⟩ := exists_place hlen hcomponent
    have harm' :
      (component, Value.ofOption place) ∈ decl.arms.zip (held.map Value.ofOption) := by
      rw [zip_map_right, mem_map]
      exact ⟨_, harm, rfl⟩
    have hinner := htag.inside_cons ((firstFault_arm name (harms _ harm)).inside_cons
      firstFault_inside_nil)
    rw [Option.or_none] at hinner
    simp only [hselected]
    rw [encodeArm_eq_elim hnodup harm]
    exact (hinner.atOrInside _).of_iff (holds_union_selected hdecl hnodup harm' hselected)
  · have hnone : ∀ component ∈ decl.arms, decl.select tag ≠ some component.name := by
      intro component hcomponent hname
      exact hselected ⟨component, hcomponent, hname⟩
    have hparts := ((htag.inside_cons firstFault_inside_nil).atOrInside _).of_iff
      (holds_union_unselected hdecl hnone (held.map Value.ofOption))
    cases hselect : decl.select tag with
    | none => exact hparts
    | some arm =>
      have hnames : ∀ component ∈ decl.arms, component.name ≠ arm := by
        rintro component hcomponent rfl
        exact hnone component hcomponent hselect
      simp only [encodeArm_of_find_none hlen hnames]
      exact hparts

/-- **Writing fails with the first fault**, and succeeds where there is
none. -/
theorem HasType.firstFault (hschema : schema.WellFormed) (h : schema.HasType type value) :
    FirstFault (schema.Holds type value) (schema.encode type value).failure := by
  induction h with
  | void | bool _ | int _ | uint _ | hyper _ | uhyper _ | float _ | double _ | absent _ =>
    exact firstFault_leaf (by rintro _ _ ⟨⟩; exact ⟨rfl, rfl⟩)
  | text limit value | bytes limit value =>
    rw [encode, failure_blob]
    exact firstFault_leaf (by rintro _ _ ⟨⟩; exact ⟨rfl, rfl⟩)
  | fixedText length value | fixedBytes length value =>
    rw [encode, failure_fixedBlob]
    exact firstFault_leaf (by rintro _ _ ⟨⟩; exact ⟨rfl, rfl⟩)
  | array limit _ ih =>
    rw [encode, failure_counted]
    exact ((firstFault_items ih).atOrInside _).of_iff (holds_list rfl)
  | fixedArray length _ ih =>
    rw [encode, failure_fixed]
    exact ((firstFault_items ih).atOrInside _).of_iff (holds_list rfl)
  | present _ ih =>
    rw [encode, failure_andThen_eq]
    have hparts := ((ih.inside_cons firstFault_inside_nil).atOrInside _).of_iff holds_present
    rwa [Option.or_none] at hparts
  | member hdecl _ =>
    simp only [encode, hdecl]
    exact firstFault_leaf (by rintro _ _ ⟨⟩; exact ⟨rfl, rfl⟩)
  | record hdecl hlen _ ih =>
    simp only [encode, hdecl]
    exact ((firstFault_fields hlen ih).atOrInside _).of_iff (holds_record hdecl)
  | union hdecl _ hlen _ ihtag iharms =>
    exact firstFault_union hdecl (hschema.nodup_arms hdecl) hlen ihtag iharms

theorem HasType.failure_eq_iff (hschema : schema.WellFormed) (h : schema.HasType type value)
    (fault : Option WireError) :
    (schema.encode type value).failure = fault ↔
    FirstFault (schema.Holds type value) fault := by
  constructor
  · rintro rfl
    exact h.firstFault hschema
  · exact (h.firstFault hschema).unique fun hpart => hpart.unique hschema

end Schema
end Xdr
