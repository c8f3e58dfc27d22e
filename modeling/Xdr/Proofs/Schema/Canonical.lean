import Mathlib.Data.List.Nodup
import Xdr.Proofs.Schema.RoundTrip

/-!
# Writing what was read

Whatever decoding accepts can be written again.  The bytes written are the
ones that were read, except that those which only fill an item up to a word
boundary are now zero: reading does not look at them, so they are the only
freedom that a wire form has.

## Main Statements

* `Schema.WireForm.hasType`, `Schema.WireForm.settled_eq_true` — what is
  read is typed and settled
* `Schema.WireForm.exists_encode` — it is written as the same bytes with
  zeros for padding
* `Schema.WireForm.dvd_length` — a wire form is a number of whole words
* `Schema.exists_canonical_of_decode` — the same, from what decoding accepts
-/

namespace Xdr

open List Output Packed Value Wire

/-! ### Padding -/

/-- The marks of `length` bytes that count. -/
def Wire.plainMarks (length : Nat) : List Bool :=
  replicate length false

/-- The marks of a blob of `length` bytes: the bytes themselves, and then
their padding. -/
def Wire.blobMarks (length : Nat) : List Bool :=
  plainMarks length ++ replicate (padding length) true

/-- Some bytes in which the marked ones are zero. -/
def Wire.zeroPadding (marks : List Bool) (bytes : List UInt8) : List UInt8 :=
  zipWith (fun mark byte => if mark then 0 else byte) marks bytes

namespace Schema

mutual

/-- For each byte of a wire form of a value, whether it is padding. -/
def paddingMarks (schema : Schema) : Ty → Value → List Bool
  | .bool, _ => plainMarks 4
  | .int, _ => plainMarks 4
  | .uint, _ => plainMarks 4
  | .hyper, _ => plainMarks 8
  | .uhyper, _ => plainMarks 8
  | .float, _ => plainMarks 4
  | .double, _ => plainMarks 8
  | .text _, .text value => plainMarks 4 ++ blobMarks (Text.utf8 value).length
  | .fixedText _, .text value => blobMarks (Text.utf8 value).length
  | .bytes _, .bytes value => plainMarks 4 ++ blobMarks value.length
  | .fixedBytes _, .bytes value => blobMarks value.length
  | .array item _, .list items => plainMarks 4 ++ itemMarks schema item items
  | .fixedArray item _, .list items => itemMarks schema item items
  | .optional _, .absent => plainMarks 4
  | .optional item, .present value => plainMarks 4 ++ paddingMarks schema item value
  | .named _, .member _ => plainMarks 4
  | .named name, .record values =>
    match schema.find? name with
    | some (.record fields) => fieldMarks schema fields values
    | _ => []
  | .named name, .union tag values =>
    match schema.find? name with
    | some (.union decl) =>
      paddingMarks schema decl.tag.type tag ++
        match decl.select tag with
        | some arm => armMarks schema arm decl.arms values
        | none => []
    | _ => []
  | _, _ => []

/-- The marks of items of one type, in order. -/
def itemMarks (schema : Schema) (item : Ty) : List Value → List Bool
  | [] => []
  | value :: values => paddingMarks schema item value ++ itemMarks schema item values

/-- The marks of the fields of a record, in order. -/
def fieldMarks (schema : Schema) : List Component → List Value → List Bool
  | field :: fields, value :: values =>
    paddingMarks schema field.type value ++ fieldMarks schema fields values
  | _, _ => []

/-- The marks of the arm with the name `arm`. -/
def armMarks (schema : Schema) (arm : String) : List Component → List Value → List Bool
  | component :: components, .present value :: values =>
    if component.name == arm then paddingMarks schema component.type value
    else armMarks schema arm components values
  | _ :: components, _ :: values => armMarks schema arm components values
  | _, _ => []

end

end Schema

namespace Wire

/-- `canonical` is `bytes` with zeros in the places of the marks, of which
there is one for each byte. -/
structure Canonical (marks : List Bool) (bytes canonical : List UInt8) : Prop where
  length_eq : marks.length = bytes.length
  eq_zeroPadding : canonical = zeroPadding marks bytes

namespace Canonical

variable {marks : List Bool} {bytes canonical : List UInt8}

theorem nil : Canonical [] [] [] := ⟨rfl, rfl⟩

theorem append {marks' bytes' canonical'} (h : Canonical marks bytes canonical)
    (h' : Canonical marks' bytes' canonical') :
    Canonical (marks ++ marks') (bytes ++ bytes') (canonical ++ canonical') where
  length_eq := by rw [length_append, length_append, h.length_eq, h'.length_eq]
  eq_zeroPadding := by
    rw [zeroPadding, zipWith_append h.length_eq, h.eq_zeroPadding, h'.eq_zeroPadding]
    rfl

/-- Bytes that count stay as they are. -/
theorem plain (bytes : List UInt8) : Canonical (plainMarks bytes.length) bytes bytes where
  length_eq := length_replicate
  eq_zeroPadding := by
    induction bytes with
    | nil => rfl
    | cons byte bytes ih => exact congrArg (byte :: ·) ih

theorem word (word : UInt32) :
    Canonical (plainMarks 4) (wordBytes word) (wordBytes word) := by
  simpa using plain (wordBytes word)

theorem long (word : UInt64) :
    Canonical (plainMarks 8) (longBytes word) (longBytes word) := by
  simpa using plain (longBytes word)

/-- Filling bytes become zero. -/
theorem filler (bytes : List UInt8) :
    Canonical (replicate bytes.length true) bytes (replicate bytes.length 0) where
  length_eq := length_replicate
  eq_zeroPadding := by
    induction bytes with
    | nil => rfl
    | cons byte bytes ih => exact congrArg ((0 : UInt8) :: ·) ih

/-- A blob keeps its bytes and is filled up with zeros. -/
theorem blob {data fill : List UInt8} (hfill : fill.length = padding data.length) :
    Canonical (blobMarks data.length) (data ++ fill) (padded data) := by
  have h := (plain data).append (filler fill)
  rwa [hfill] at h

/-- Where the marked bytes are zero already, nothing changes. -/
theorem eq_self (h : Canonical marks bytes canonical)
    (hzero : ∀ pair ∈ marks.zip bytes, pair.1 = true → pair.2 = 0) : canonical = bytes := by
  obtain ⟨hlen, rfl⟩ := h
  induction marks generalizing bytes with
  | nil => exact (length_eq_zero_iff.mp hlen.symm).symm
  | cons mark marks ih =>
    cases bytes with
    | nil => cases hlen
    | cons byte bytes =>
      rw [zip_cons_cons, forall_mem_cons] at hzero
      have hbyte : (if mark then 0 else byte) = byte := by
        cases mark with
        | false => rfl
        | true => exact (hzero.1 rfl).symm
      rw [zeroPadding, zipWith_cons_cons, hbyte]
      exact congrArg (byte :: ·) (ih hzero.2 (Nat.succ.inj hlen))

theorem length_canonical (h : Canonical marks bytes canonical) :
    canonical.length = bytes.length := by
  rw [h.eq_zeroPadding, zeroPadding, length_zipWith, h.length_eq, Nat.min_self]

end Canonical
end Wire

namespace Schema

variable {schema : Schema} {type : Ty} {value : Value} {bytes : List UInt8}

/-! ### What is read is typed and settled -/

/-- The places of a union of which one arm is there. -/
theorem place_eq_map_ofOption (decl : UnionDef) (name : String) (value : Value) :
    decl.place name (.present value) =
      (decl.arms.map fun arm => if arm.name == name then some value
        else none).map ofOption := by
  rw [UnionDef.place, map_map]
  refine map_congr_left fun arm _ => ?_
  by_cases h : arm.name = name <;> simp [h, ofOption]

theorem absent_eq_map_ofOption (decl : UnionDef) :
    (decl.arms.map fun _ => absent) = (decl.arms.map fun _ => none).map ofOption := by
  rw [map_map]
  rfl

theorem zip_map_self {α β : Type} (list : List α) (f : α → β) :
    list.zip (list.map f) = list.map fun item => (item, f item) := by
  have h := @List.zip_map' _ _ _ id f list
  rwa [map_id] at h

/-- An arm with the name of a selected one is that one. -/
theorem WellFormed.eq_of_find (hschema : schema.WellFormed) {name decl}
    (hdecl : schema.find? name = some (.union decl)) {selects component}
    (hfind : decl.arms.find? selects = some component) {arm} (harm : arm ∈ decl.arms)
    (hname : arm.name = component.name) : arm = component :=
  inj_on_of_nodup_map (hschema.nodup_arms hdecl) harm (mem_of_find?_eq_some hfind) hname

/-- What has a wire form is a value of the type. -/
theorem WireForm.hasType (hschema : schema.WellFormed)
    (h : schema.WireForm type value bytes) : schema.HasType type value := by
  induction h with
  | void => exact .void
  | bool value => exact .bool value
  | int word => exact .int _
  | uint word => exact .uint word
  | hyper word => exact .hyper _
  | uhyper word => exact .uhyper word
  | float word => exact .float word
  | double word => exact .double word
  | text _ _ _ => exact .text _ _
  | fixedText _ _ => exact .fixedText _ _
  | bytes _ _ _ => exact .bytes _ _
  | fixedBytes _ _ => exact .fixedBytes _ _
  | array _ _ _ ih => exact .array _ (forall_mem_map.mpr ih)
  | fixedArray _ _ ih => exact .fixedArray _ (forall_mem_map.mpr ih)
  | absent item => exact .absent item
  | present _ ih => exact .present ih
  | member hdecl hmember => exact .member hdecl hmember
  | record hdecl hlen _ ih =>
    refine .record hdecl (by rw [hlen, length_map]) ?_
    rw [zip_map_right, forall_mem_map]
    exact ih
  | union hdecl _ hfind _ ihtag ihvalue =>
    rw [place_eq_map_ofOption]
    refine .union hdecl ihtag (by rw [length_map]) ?_
    rw [zip_map_self, forall_mem_map]
    -- The arm was placed by its name, which no other arm has.
    intro arm harm held hheld
    obtain ⟨hname, rfl⟩ : arm.name = _ ∧ _ = held := by simpa using hheld
    rwa [hschema.eq_of_find hdecl hfind harm hname]
  | bareUnion hdecl _ _ ihtag =>
    rw [absent_eq_map_ofOption]
    refine .union hdecl ihtag (by rw [length_map]) ?_
    rw [zip_map_self, forall_mem_map]
    intro arm harm held hheld
    cases hheld

/-- Of arms that are filled by name, the selected one is settled if its
value is. -/
theorem settledArms_place {selected name components} (hselected : selected = some name)
    (hvalue : ∀ component ∈ components, component.name = name →
      schema.settled component.type value = true) :
    schema.settledArms selected components
      (components.map fun arm => if arm.name == name then .present value
        else .absent) = true := by
  induction components with
  | nil => simp [settledArms]
  | cons component components ih =>
    rw [forall_mem_cons] at hvalue
    have hothers := ih hvalue.2
    by_cases hname : component.name = name
    · rw [map_cons, if_pos (by simpa using hname), settledArms, hothers, hvalue.1 hname,
        hname, hselected]
      simp
    · rw [map_cons, if_neg (by simpa using hname), settledArms]
      · exact hothers
      · exact fun _ h => Value.noConfusion h

theorem settledArms_absent (selected : Option String) (components : List Component) :
    schema.settledArms selected components (components.map fun _ => .absent) = true := by
  induction components with
  | nil => simp [settledArms]
  | cons component components ih =>
    rw [map_cons, settledArms]
    · exact ih
    · exact fun _ h => Value.noConfusion h

theorem settledFields_of_forall {fields values}
    (h : ∀ pair ∈ fields.zip values, schema.settled pair.1.type pair.2 = true) :
    schema.settledFields fields values = true := by
  induction fields generalizing values with
  | nil => simp [settledFields]
  | cons field fields ih =>
    cases values with
    | nil => rfl
    | cons value values =>
      rw [zip_cons_cons, forall_mem_cons] at h
      rw [settledFields, h.1, ih h.2, Bool.and_true]

/-- What has a wire form holds no stale arm. -/
theorem WireForm.settled_eq_true (hschema : schema.WellFormed)
    (h : schema.WireForm type value bytes) : schema.settled type value = true := by
  induction h with
  | void | bool _ | int _ | uint _ | hyper _ | uhyper _ | float _ | double _ => rfl
  | text _ _ _ | fixedText _ _ | bytes _ _ _ | fixedBytes _ _ | absent _ | member _ _ => rfl
  | array _ _ _ ih | fixedArray _ _ ih =>
    rw [settled, settledItems_eq_all, all_eq_true, forall_mem_map]
    exact ih
  | present _ ih => rwa [settled]
  | record hdecl _ _ ih =>
    simp only [settled, hdecl]
    refine settledFields_of_forall ?_
    rw [zip_map_right, forall_mem_map]
    exact ih
  | union hdecl _ hfind _ ihtag ihvalue =>
    have hfound := find?_some hfind
    simp only [settled, hdecl, ihtag, Bool.true_and]
    refine settledArms_place (beq_iff_eq.mp hfound).symm fun arm harm hname => ?_
    rwa [hschema.eq_of_find hdecl hfind harm hname]
  | bareUnion hdecl _ _ ihtag =>
    simp only [settled, hdecl, ihtag, Bool.true_and]
    exact settledArms_absent _ _

/-! ### What is read can be written -/

/-- A value can be written, and is written as `bytes` with zeros for
padding. -/
def Rewritten (schema : Schema) (type : Ty) (value : Value) (bytes : List UInt8) : Prop :=
  ∃ canonical, schema.encode type value = .wrote canonical ∧
    Canonical (schema.paddingMarks type value) bytes canonical

theorem exists_encodeItems {item : Ty} {parts : List (Value × List UInt8)}
    (h : ∀ part ∈ parts, schema.Rewritten item part.1 part.2) :
    ∃ canonical, schema.encodeItems item (parts.map Prod.fst) = .wrote canonical ∧
      Canonical (schema.itemMarks item (parts.map Prod.fst))
        (parts.flatMap Prod.snd) canonical := by
  induction parts with
  | nil => exact ⟨[], rfl, .nil⟩
  | cons part parts ih =>
    rw [forall_mem_cons] at h
    obtain ⟨front, hfront, hfrontCanonical⟩ := h.1
    obtain ⟨back, hback, hbackCanonical⟩ := ih h.2
    refine ⟨front ++ back, ?_, hfrontCanonical.append hbackCanonical⟩
    rw [map_cons, encodeItems, hfront, hback, wrote_andThen_wrote]

theorem exists_encodeFields {fields : List Component} {parts : List (Value × List UInt8)}
    (hlen : fields.length = parts.length)
    (h : ∀ pair ∈ fields.zip parts, schema.Rewritten pair.1.type pair.2.1 pair.2.2) :
    ∃ canonical, schema.encodeFields fields (parts.map Prod.fst) = .wrote canonical ∧
      Canonical (schema.fieldMarks fields (parts.map Prod.fst))
        (parts.flatMap Prod.snd) canonical := by
  induction fields generalizing parts with
  | nil =>
    rw [length_eq_zero_iff.mp hlen.symm]
    exact ⟨[], rfl, .nil⟩
  | cons field fields ih =>
    cases parts with
    | nil => cases hlen
    | cons part parts =>
      rw [zip_cons_cons, forall_mem_cons] at h
      obtain ⟨front, hfront, hfrontCanonical⟩ := h.1
      obtain ⟨back, hback, hbackCanonical⟩ := ih (Nat.succ.inj hlen) h.2
      refine ⟨front ++ back, ?_, hfrontCanonical.append hbackCanonical⟩
      rw [map_cons, encodeFields, hfront, hback, wrote_andThen_wrote]

/-- Of arms that are filled by name, the first one of that name is written,
and has the marks. -/
theorem encodeArm_place {union name} {components : List Component} {component}
    (hfind : (components.find? fun arm => some arm.name == some name) = some component) :
    schema.encodeArm union name components
        (components.map fun arm => if arm.name == name then .present value else .absent) =
      schema.encode component.type value ∧
    schema.armMarks name components
        (components.map fun arm => if arm.name == name then .present value else .absent) =
      schema.paddingMarks component.type value := by
  induction components with
  | nil => cases hfind
  | cons first components ih =>
    by_cases hfirst : first.name = name
    · obtain rfl : first = component := by simpa [hfirst] using hfind
      simp [encodeArm, armMarks, hfirst]
    · have hfind' : (components.find? fun arm =>
        some arm.name == some name) = some component := by
        simpa [find?_cons, hfirst] using hfind
      simpa [encodeArm, armMarks, hfirst] using ih hfind'

theorem armMarks_absent (name : String) (components : List Component) :
    schema.armMarks name components (components.map fun _ => .absent) = [] := by
  induction components with
  | nil => rfl
  | cons component components ih =>
    rw [map_cons, armMarks]
    · exact ih
    · exact fun _ h => Value.noConfusion h

/-- **What is read can be written**, and is written as the same bytes with
zeros for padding. -/
theorem WireForm.exists_encode (h : schema.WireForm type value bytes) :
    schema.Rewritten type value bytes := by
  induction h with
  | void => exact ⟨[], rfl, .nil⟩
  | bool value => exact ⟨_, rfl, .word _⟩
  | int word | uint word | float word => exact ⟨_, rfl, .word word⟩
  | hyper word | uhyper word | double word => exact ⟨_, rfl, .long word⟩
  | text hlimit hvalue hfiller | bytes hlimit hvalue hfiller =>
    refine ⟨_, blob_eq_wrote.mpr ⟨_, hvalue, hlimit, rfl⟩,
      (Canonical.word _).append (.blob ?_)⟩
    rw [hfiller, hvalue]
  | fixedText hvalue hfiller | fixedBytes hvalue hfiller =>
    refine ⟨_, fixedBlob_eq_wrote.mpr ⟨hvalue, rfl⟩, .blob ?_⟩
    rw [hfiller, hvalue]
  | array hlimit hcount _ ih =>
    obtain ⟨back, hback, hcanonical⟩ := exists_encodeItems ih
    refine ⟨_, counted_eq_wrote.mpr ⟨_, back, ?_, hlimit, hback, rfl⟩,
      (Canonical.word _).append hcanonical⟩
    rw [length_map, hcount]
  | fixedArray hcount _ ih =>
    obtain ⟨back, hback, hcanonical⟩ := exists_encodeItems ih
    refine ⟨back, fixed_eq_wrote.mpr ⟨?_, hback⟩, hcanonical⟩
    rw [length_map, hcount]
  | absent item => exact ⟨_, rfl, .word 0⟩
  | present _ ih =>
    obtain ⟨back, hback, hcanonical⟩ := ih
    refine ⟨wordBytes 1 ++ back, ?_, (Canonical.word 1).append hcanonical⟩
    rw [encode, hback]
    rfl
  | member hdecl _ =>
    refine ⟨_, ?_, .word _⟩
    simp only [encode, hdecl]
    rfl
  | record hdecl hlen _ ih =>
    obtain ⟨canonical, hencode, hcanonical⟩ := exists_encodeFields hlen ih
    refine ⟨canonical, ?_, ?_⟩
    · simpa only [encode, hdecl] using hencode
    · simpa only [paddingMarks, hdecl] using hcanonical
  | @union name decl tag value component _ _ hdecl _ hfind _ ihtag ihvalue =>
    obtain ⟨front, hfront, hfrontCanonical⟩ := ihtag
    obtain ⟨back, hback, hbackCanonical⟩ := ihvalue
    have hfound := find?_some hfind
    have harm : decl.select tag = some component.name := (beq_iff_eq.mp hfound).symm
    rw [harm] at hfind
    obtain ⟨hencode, hmarks⟩ := @encodeArm_place schema value name component.name _ _ hfind
    refine ⟨front ++ back, ?_, ?_⟩
    · simp only [encode, hdecl, harm, hfront, UnionDef.place, hencode, hback,
        wrote_andThen_wrote]
    · simpa only [paddingMarks, hdecl, harm, UnionDef.place, hmarks] using
        hfrontCanonical.append hbackCanonical
  | @bareUnion name decl tag _ hdecl _ hfind ihtag =>
    obtain ⟨front, hfront, hcanonical⟩ := ihtag
    have hnames : ∀ arm ∈ decl.arms, some arm.name ≠ decl.select tag := by
      simpa [find?_eq_none] using hfind
    -- The selector is missing or names no arm: either way only the tag is written, and
    -- marked.
    refine ⟨front, ?_, ?_⟩
    · cases harm : decl.select tag with
      | none =>
        simp only [encode, hdecl, harm, hfront, wrote_andThen_wrote, append_nil]
      | some arm =>
        rw [harm] at hnames
        have hencode : schema.encodeArm name arm decl.arms (decl.arms.map fun _ => .absent) =
            .wrote [] := by
          rw [absent_eq_map_ofOption]
          exact encodeArm_of_find_none (by simp) fun other hmem heq =>
            hnames other hmem (congrArg some heq)
        simp only [encode, hdecl, harm, hfront, hencode, wrote_andThen_wrote,
          append_nil]
    · cases harm : decl.select tag with
      | none => simpa only [paddingMarks, hdecl, harm, append_nil] using hcanonical
      | some arm =>
        simpa only [paddingMarks, hdecl, harm, armMarks_absent, append_nil] using hcanonical

/-- A wire form is a number of whole words. -/
theorem WireForm.dvd_length {rank} (hschema : schema.Productive rank)
    (h : schema.WireForm type value bytes) : 4 ∣ bytes.length := by
  have hread : (type.decode schema.reader).on bytes = (.ok value, []) := by
    simpa using h.reads hschema []
  obtain ⟨taken, htaken, hdvd⟩ :=
    type.closed_decode Unpack.closed_advances schema.advances_reader bytes
  rw [hread, append_nil] at htaken
  rwa [htaken]

/-- Whatever decoding accepts is written in its canonical form, and read
back from there. -/
theorem exists_canonical_of_decode (hschema : schema.WellFormed) {rest}
    (h : schema.decode type bytes = (.ok value, rest)) :
    ∃ taken canonical, bytes = taken ++ rest ∧ 4 ∣ taken.length ∧
      (schema.encode type value).result = .ok canonical ∧
      Canonical (schema.paddingMarks type value) taken canonical ∧
      schema.decode type (canonical ++ rest) = (.ok value, rest) := by
  obtain ⟨rank, hrank⟩ := hschema.productive
  obtain ⟨taken, htaken, hform⟩ := (decode_eq_ok hrank).mp h
  obtain ⟨canonical, hencode, hcanonical⟩ := hform.exists_encode
  have hresult := result_eq_ok.mpr hencode
  -- What was read is settled, so clearing it changes nothing.
  have hread := decode_encode hschema (hform.hasType hschema) hresult rest
  rw [(hform.hasType hschema).clear_eq_self (hform.settled_eq_true hschema)] at hread
  exact ⟨taken, canonical, htaken, hform.dvd_length hrank, hresult, hcanonical, hread⟩

end Schema
end Xdr
