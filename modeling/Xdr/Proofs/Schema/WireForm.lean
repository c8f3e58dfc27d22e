import Xdr.Proofs.Schema.Typing
import Xdr.Proofs.Schema.Unfolding

/-!
# Wire forms

Which bytes stand for which value of a type, as a relation, and the theorem
that decoding decides it.

## Main Statements

* `Schema.WireForm.reads` — decoding takes a wire form from the front of
  every input
* `Schema.acceptsOnly_type` — decoding takes nothing else
* `Schema.decode_eq_ok` — both, as one equivalence

## Design Notes

The bytes that fill an item up to a word boundary are arbitrary, so a value
with blobs has several wire forms. Repeated items and fields are given as
parts, each a value with its own wire form.
-/

namespace Xdr.Schema

open Component List Prod Unpack Value Wire

/-- Some bytes are a wire form of a value of a type. -/
inductive WireForm (schema : Schema) : Ty → Value → List UInt8 → Prop
  | void : WireForm schema .void .void []
  | bool (value : Bool) :
    WireForm schema .bool (.bool value) (wordBytes (if value then 1 else 0))
  | int (word : UInt32) : WireForm schema .int (.int word.toInt32) (wordBytes word)
  | uint (word : UInt32) : WireForm schema .uint (.uint word) (wordBytes word)
  | hyper (word : UInt64) : WireForm schema .hyper (.hyper word.toInt64) (longBytes word)
  | uhyper (word : UInt64) : WireForm schema .uhyper (.uhyper word) (longBytes word)
  | float (word : UInt32) : WireForm schema .float (.float word) (wordBytes word)
  | double (word : UInt64) : WireForm schema .double (.double word) (longBytes word)
  | text {limit count value} {filler : List UInt8} (hlimit : ∀ most ∈ limit, count ≤ most)
      (hvalue : (Text.utf8 value).length = count.toNat)
      (hfiller : filler.length = padding count.toNat) :
      WireForm schema (.text limit) (.text value) (wordBytes count ++
        (Text.utf8 value ++ filler))
  | fixedText {length : UInt32} {value} {filler : List UInt8}
      (hvalue : (Text.utf8 value).length = length.toNat)
      (hfiller : filler.length = padding length.toNat) :
      WireForm schema (.fixedText length) (.text value) (Text.utf8 value ++ filler)
  | bytes {limit count} {value filler : List UInt8} (hlimit : ∀ most ∈ limit, count ≤ most)
      (hvalue : value.length = count.toNat) (hfiller : filler.length = padding count.toNat) :
      WireForm schema (.bytes limit) (.bytes value) (wordBytes count ++ (value ++ filler))
  | fixedBytes {length : UInt32} {value filler : List UInt8} (hvalue :
    value.length = length.toNat) (hfiller : filler.length = padding length.toNat) :
      WireForm schema (.fixedBytes length) (.bytes value) (value ++ filler)
  | array {item limit count} {parts : List (Value × List UInt8)}
      (hlimit : ∀ most ∈ limit, count ≤ most) (hcount : parts.length = count.toNat)
      (hparts : ∀ part ∈ parts, WireForm schema item part.1 part.2) :
      WireForm schema (.array item limit) (.list (parts.map fst)) (wordBytes count ++
        parts.flatMap snd)
  | fixedArray {item} {length : UInt32} {parts : List (Value × List UInt8)}
      (hcount : parts.length = length.toNat)
      (hparts : ∀ part ∈ parts, WireForm schema item part.1 part.2) :
      WireForm schema (.fixedArray item length) (.list (parts.map fst))
        (parts.flatMap snd)
  | absent (item : Ty) : WireForm schema (.optional item) .absent (wordBytes 0)
  | present {item value bytes} (hvalue : WireForm schema item value bytes) :
      WireForm schema (.optional item) (.present value) (wordBytes 1 ++ bytes)
  | member {name decl} {word : UInt32} (hdecl : schema.find? name = some (.enumeration decl))
      (hmember : (decl.byNumber? word.toInt32).isSome) :
      WireForm schema (.named name) (.member word.toInt32) (wordBytes word)
  | record {name fields} {parts : List (Value × List UInt8)}
      (hdecl : schema.find? name = some (.record fields))
      (hlen : fields.length = parts.length)
      (hparts : ∀ pair ∈ fields.zip parts, WireForm schema pair.1.type pair.2.1 pair.2.2) :
      WireForm schema (.named name) (.record (parts.map fst)) (parts.flatMap snd)
  | union {name decl tag value component front back}
      (hdecl : schema.find? name = some (.union decl))
      (htag : WireForm schema decl.tag.type tag front)
      (hfind : (decl.arms.find? fun arm => some arm.name == decl.select tag) = some component)
      (hvalue : WireForm schema component.type value back) :
      WireForm schema (.named name) (.union tag (decl.place component.name (.present value)))
        (front ++ back)
  | bareUnion {name decl tag front} (hdecl : schema.find? name = some (.union decl))
      (htag : WireForm schema decl.tag.type tag front)
      (hfind : (decl.arms.find? fun arm => some arm.name == decl.select tag) = none) :
      WireForm schema (.named name) (.union tag (decl.arms.map fun _ => .absent)) front

variable {schema : Schema}

/-! ### Decoding takes wire forms -/

theorem reads_decodeAll {named} {fields : List Component} {parts : List (Value × List UInt8)}
    (hlen : fields.length = parts.length)
    (hparts : ∀ pair ∈ fields.zip parts, Reads (pair.1.type.decode named) pair.2.2 pair.2.1) :
    Reads (decodeAll named fields) (parts.flatMap snd) (parts.map fst) := by
  induction fields generalizing parts with
  | nil =>
    rw [length_eq_zero_iff.mp hlen.symm]
    exact fun _ => rfl
  | cons field fields ih =>
    cases parts with
    | nil => cases hlen
    | cons part parts =>
      rw [zip_cons_cons, forall_mem_cons] at hparts
      exact hparts.1.bind ((ih (Nat.succ.inj hlen) hparts.2).map _)

/-- **Decoding takes a wire form** from the front of every input that starts
with it. -/
theorem WireForm.reads {rank : String → Nat} (hschema : schema.Productive rank) {type : Ty}
    {value : Value} {bytes : List UInt8} (h : schema.WireForm type value bytes) :
    Reads (type.decode schema.reader) bytes value := by
  -- By induction on the form: names are read by their declarations, so no count of names gets
  -- in the way.
  induction h with
  | void => exact fun _ => rfl
  | bool value => exact (reads_bool value).map _
  | int word | uint word | float word => exact (reads_word word).map _
  | hyper word | uhyper word | double word => exact (reads_long word).map _
  | text hlimit hvalue hfiller =>
    intro rest
    exact on_bind_eq_ok.mpr
      ⟨_, rest, reads_blob hlimit hvalue hfiller rest, (reads_text _).map Value.text rest⟩
  | fixedText hvalue hfiller =>
    intro rest
    exact on_bind_eq_ok.mpr
      ⟨_, rest, reads_fixedBlob hvalue hfiller rest, (reads_text _).map Value.text rest⟩
  | bytes hlimit hvalue hfiller => exact (reads_blob hlimit hvalue hfiller).map _
  | fixedBytes hvalue hfiller => exact (reads_fixedBlob hvalue hfiller).map _
  | array hlimit hcount _ ih =>
    have hlength : Reads (Unpack.length _) _ _ := fun _ => length_eq_ok.mpr ⟨rfl, hlimit⟩
    have hitems := reads_times ih
    rw [hcount] at hitems
    exact (hlength.bind hitems).map _
  | fixedArray hcount _ ih =>
    have hitems := reads_times ih
    rw [hcount] at hitems
    exact hitems.map _
  | absent item => exact (reads_optional_none _).map ofOption
  | present _ ih => exact (reads_optional_some ih).map ofOption
  | member hdecl hmember =>
    intro rest
    obtain ⟨found, hfound⟩ := Option.isSome_iff_exists.mp hmember
    rw [Ty.decode, on_reader hschema hdecl]
    refine on_bind_eq_ok.mpr ⟨_, rest, reads_word _ rest, ?_⟩
    simp only [hfound, on_pure]
  | record hdecl hlen _ ih =>
    intro rest
    rw [Ty.decode, on_reader hschema hdecl]
    exact (reads_decodeAll hlen ih).map Value.record rest
  | union hdecl _ hfind _ ihtag ihvalue =>
    intro rest
    rw [Ty.decode, on_reader hschema hdecl]
    refine Reads.bind ihtag ?_ rest
    rw [hfind]
    exact ihvalue.map _
  | bareUnion hdecl _ hfind ihtag =>
    intro rest
    rw [Ty.decode, on_reader hschema hdecl]
    refine on_bind_eq_ok.mpr ⟨_, rest, ihtag rest, ?_⟩
    rw [hfind]
    rfl

/-! ### Decoding takes nothing else -/

/-- A reader whose result is only wrapped accepts what the reader inside
accepts. -/
theorem acceptsOnly_map {α : Type} {reader : Unpack α} {wrap : α → Value} {type : Ty}
    (h : AcceptsOnly reader fun value taken => schema.WireForm type (wrap value) taken) :
    AcceptsOnly (reader >>= fun value => pure (wrap value)) (schema.WireForm type) := by
  intro bytes value rest hread
  obtain ⟨inner, rfl, hinner⟩ := on_map_eq_ok.mp hread
  exact h hinner

section Soundness

variable {named : String → Unpack Value}
  (hnamed : ∀ name, AcceptsOnly (named name) (schema.WireForm (.named name)))

include hnamed

/-- The reader of a type takes only its wire forms, if the readers of names
do. -/
theorem acceptsOnly_type (type : Ty) :
    AcceptsOnly (type.decode named) (schema.WireForm type) := by
  -- Types hold names, not declarations, so the induction stops at a name, where `hnamed`
  -- takes over.
  induction type with
  | void =>
    intro bytes value rest h
    obtain ⟨rfl, rfl⟩ : void = value ∧ bytes = rest := by simpa [Ty.decode] using h
    exact ⟨[], rfl, .void⟩
  | bool => exact acceptsOnly_map fun _ value _ h => ⟨_, bool_eq_ok.mp h, .bool value⟩
  | int => exact acceptsOnly_map fun _ word _ h => ⟨_, word_eq_ok.mp h, .int word⟩
  | uint => exact acceptsOnly_map fun _ word _ h => ⟨_, word_eq_ok.mp h, .uint word⟩
  | float => exact acceptsOnly_map fun _ word _ h => ⟨_, word_eq_ok.mp h, .float word⟩
  | hyper => exact acceptsOnly_map fun _ word _ h => ⟨_, long_eq_ok.mp h, .hyper word⟩
  | uhyper => exact acceptsOnly_map fun _ word _ h => ⟨_, long_eq_ok.mp h, .uhyper word⟩
  | double => exact acceptsOnly_map fun _ word _ h => ⟨_, long_eq_ok.mp h, .double word⟩
  | text limit =>
    intro bytes value rest h
    obtain ⟨data, middle, hdata, h⟩ := on_bind_eq_ok.mp h
    obtain ⟨text, rfl, htext⟩ := on_map_eq_ok.mp h
    obtain ⟨rfl, rfl⟩ := text_eq_ok.mp htext
    obtain ⟨count, filler, rfl, hlimit, hcount, hfiller⟩ := blob_eq_ok.mp hdata
    exact ⟨_, by simp, .text hlimit hcount hfiller⟩
  | fixedText length =>
    intro bytes value rest h
    obtain ⟨data, middle, hdata, h⟩ := on_bind_eq_ok.mp h
    obtain ⟨text, rfl, htext⟩ := on_map_eq_ok.mp h
    obtain ⟨rfl, rfl⟩ := text_eq_ok.mp htext
    obtain ⟨filler, rfl, hcount, hfiller⟩ := fixedBlob_eq_ok.mp hdata
    exact ⟨_, rfl, .fixedText hcount hfiller⟩
  | bytes limit =>
    refine acceptsOnly_map fun bytes data rest h => ?_
    obtain ⟨count, filler, rfl, hlimit, hcount, hfiller⟩ := blob_eq_ok.mp h
    exact ⟨_, by simp, .bytes hlimit hcount hfiller⟩
  | fixedBytes length =>
    refine acceptsOnly_map fun bytes data rest h => ?_
    obtain ⟨filler, rfl, hcount, hfiller⟩ := fixedBlob_eq_ok.mp h
    exact ⟨_, rfl, .fixedBytes hcount hfiller⟩
  | array item limit ih =>
    refine acceptsOnly_map fun bytes values rest h => ?_
    obtain ⟨count, middle, hcount, hitems⟩ := on_bind_eq_ok.mp h
    obtain ⟨rfl, hlimit⟩ := length_eq_ok.mp hcount
    obtain ⟨_, rfl, parts, hlen, rfl, rfl, hparts⟩ := acceptsOnly_times ih _ hitems
    exact ⟨_, by simp, .array hlimit hlen hparts⟩
  | fixedArray item length ih =>
    refine acceptsOnly_map fun bytes values rest h => ?_
    obtain ⟨_, rfl, parts, hlen, rfl, rfl, hparts⟩ := acceptsOnly_times ih _ h
    exact ⟨_, rfl, .fixedArray hlen hparts⟩
  | optional item ih =>
    refine acceptsOnly_map fun bytes value rest h => ?_
    obtain ⟨there, middle, hthere, hitem⟩ := on_bind_eq_ok.mp h
    obtain rfl := bool_eq_ok.mp hthere
    cases there with
    | false =>
      obtain ⟨rfl, rfl⟩ : none = value ∧ middle = rest := by simpa using hitem
      exact ⟨_, rfl, .absent item⟩
    | true =>
      obtain ⟨inner, rfl, hinner⟩ := on_map_eq_ok.mp hitem
      obtain ⟨taken, rfl, hform⟩ := ih hinner
      exact ⟨_, (append_assoc _ _ _).symm, .present hform⟩
  | named name => exact hnamed name

/-- The fields that were read have their wire forms one after the other. -/
theorem acceptsOnly_decodeAll (fields : List Component) :
    AcceptsOnly (decodeAll named fields) fun values taken =>
      ∃ parts : List (Value × List UInt8),
        fields.length = parts.length ∧ values = parts.map fst ∧ taken = parts.flatMap snd ∧
        ∀ pair ∈ fields.zip parts, schema.WireForm pair.1.type pair.2.1 pair.2.2 := by
  induction fields with
  | nil =>
    intro bytes values rest h
    obtain ⟨rfl, rfl⟩ : values = [] ∧ bytes = rest := by
      simpa [decodeAll, eq_comm] using h
    exact ⟨[], rfl, [], rfl, rfl, rfl, by simp⟩
  | cons field fields ih =>
    intro bytes values rest h
    obtain ⟨first, middle, hfirst, h⟩ := on_bind_eq_ok.mp h
    obtain ⟨others, rfl, hothers⟩ := on_map_eq_ok.mp h
    obtain ⟨front, rfl, hform⟩ := acceptsOnly_type hnamed field.type hfirst
    obtain ⟨_, rfl, parts, hlen, rfl, rfl, hparts⟩ := ih hothers
    refine ⟨front ++ parts.flatMap snd, by simp, (first, front) :: parts, ?_, rfl, rfl, ?_⟩
    · rw [length_cons, length_cons, hlen]
    · rw [zip_cons_cons]
      exact forall_mem_cons.mpr ⟨hform, hparts⟩

/-- The reader of a declaration takes only wire forms of the name that it is
declared under. -/
theorem acceptsOnly_typeDef {name : String} {decl : TypeDef}
    (hdecl : schema.find? name = some decl) :
    AcceptsOnly (decl.decode named name) (schema.WireForm (.named name)) := by
  cases decl with
  | enumeration decl =>
    intro bytes value rest h
    obtain ⟨word, middle, hword, h⟩ := on_bind_eq_ok.mp h
    dsimp only at h
    split at h
    · next hfound =>
      obtain ⟨rfl, rfl⟩ : member word.toInt32 = value ∧ middle = rest := by simpa using h
      exact ⟨_, word_eq_ok.mp hword, .member hdecl (by rw [hfound]; rfl)⟩
    · simp at h
  | record fields =>
    refine acceptsOnly_map fun bytes values rest h => ?_
    obtain ⟨_, rfl, parts, hlen, rfl, rfl, hparts⟩ := acceptsOnly_decodeAll hnamed fields h
    exact ⟨_, rfl, .record hdecl hlen hparts⟩
  | union decl =>
    intro bytes value rest h
    obtain ⟨tag, middle, htag, harm⟩ := on_bind_eq_ok.mp h
    obtain ⟨front, rfl, hfront⟩ := acceptsOnly_type hnamed _ htag
    split at harm
    · next component hfind =>
      obtain ⟨inner, rfl, hinner⟩ := on_map_eq_ok.mp harm
      obtain ⟨back, rfl, hback⟩ := acceptsOnly_type hnamed _ hinner
      exact ⟨_, (append_assoc _ _ _).symm, .union hdecl hfront hfind hback⟩
    · next hfind =>
      obtain ⟨rfl, rfl⟩ : union tag (decl.arms.map fun _ => .absent) = value ∧
          middle = rest := by simpa using harm
      exact ⟨front, rfl, .bareUnion hdecl hfront hfind⟩

end Soundness

/-- However many names are gone through, only wire forms are taken. -/
theorem acceptsOnly_decodeNamed (schema : Schema) (limit : Nat) :
    ∀ name, AcceptsOnly (schema.decodeNamed limit name) (schema.WireForm (.named name)) := by
  -- Giving up only makes the reader fail, so this needs no bound on the count.
  induction limit with
  | zero => intro name bytes value rest h; simp [decodeNamed] at h
  | succ limit ih =>
    intro name
    rw [decodeNamed]
    split
    · next hdecl => exact acceptsOnly_typeDef ih hdecl
    · intro bytes value rest h
      simp at h

/-- **Decoding decides the wire forms.**  It succeeds on exactly the inputs
that start with a wire form of the type, and leaves the rest. -/
theorem decode_eq_ok {rank : String → Nat} (hschema : schema.Productive rank) {type : Ty}
    {value : Value} {bytes rest : List UInt8} : schema.decode type bytes = (.ok value, rest) ↔
      ∃ taken, bytes = taken ++ rest ∧ schema.WireForm type value taken := by
  constructor
  · intro h
    exact acceptsOnly_type (acceptsOnly_decodeNamed schema _) type h
  · rintro ⟨taken, rfl, hform⟩
    rw [decode_eq_on hschema]
    exact hform.reads hschema rest

end Xdr.Schema
