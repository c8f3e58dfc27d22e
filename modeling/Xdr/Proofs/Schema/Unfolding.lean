import Xdr.Proofs.Wire.Reader
import Xdr.Schema.Decode

/-!
# Readers without a count of names

`Schema.decode` counts how many names it goes through and gives up beyond
`Schema.nestingLimit`.  This module shows that it never does: on a
productive schema the reader satisfies the recursive equation that the
declarations suggest, with no count in it, and every later statement about
decoding starts from that equation.

## Main Statements

* `Schema.on_reader` — the reader of a name is that of its declaration
* `Schema.decode_eq_on` — decoding a type is the reader of that type

## Design Notes

The count that suffices for a name on some bytes is bounded by the potential
`rank + bytes * (names + 1)`: a name reached before a byte is taken has a
smaller rank, and any other has less input.
-/

namespace Xdr

open Component List Nat Unpack

/-! ### Names reached before a byte -/

/-- A value of the type surely starts with a word. -/
def Ty.startsWithWord : Ty → Bool
  | .void => false
  | .fixedText _ => false
  | .fixedBytes _ => false
  | .fixedArray _ _ => false
  | .named _ => false
  | _ => true

/-- The names that a type leads to before a byte is taken. -/
def Ty.leading : Ty → List String
  | .fixedArray item _ => item.leading
  | .named name => [name]
  | _ => []

/-- The names that some fields lead to before a byte is taken. -/
def Component.leadingAll : List Component → List String
  | [] => []
  | field :: fields =>
    field.type.leading ++ if field.type.startsWithWord then [] else leadingAll fields

/-- The names that a union leads to before a byte is taken. -/
def UnionDef.leading (decl : UnionDef) : List String :=
  decl.tag.type.leading ++
    if decl.tag.type.startsWithWord then [] else decl.arms.flatMap fun arm => arm.type.leading

/-- The names that a declaration leads to before a byte is taken. -/
def TypeDef.leading : TypeDef → List String
  | .enumeration _ => []
  | .record fields => leadingAll fields
  | .union decl => decl.leading

namespace Schema

/-- Every way from a name back to itself takes a byte: a rank decreases
along the names that are reached before one. -/
structure Productive (schema : Schema) (rank : String → Nat) : Prop where
  rank_le : ∀ name, rank name ≤ schema.length
  rank_lt : ∀ {name decl}, schema.find? name = some decl → ∀ name' ∈ decl.leading,
    rank name' < rank name

/-- The reader of a named type, with as large a count as its input can need.
-/
def reader (schema : Schema) (name : String) : Unpack Value :=
  fun bytes => schema.decodeNamed (schema.nestingLimit bytes) name bytes

end Schema

/-! ### What readers are made of -/

section Closed

variable {P : ∀ {α : Type}, Unpack α → Prop} (h : Closed @P)
include h

section Named

variable {named : String → Unpack Value} (hnamed : ∀ name, P (named name))
include hnamed

theorem Ty.closed_decode (type : Ty) : P (type.decode named) := by
  induction type with
  | void => exact h.pure _
  | bool => exact h.bind h.bool fun _ => h.pure _
  | int | uint | float => exact h.bind h.word fun _ => h.pure _
  | hyper | uhyper | double => exact h.bind h.long fun _ => h.pure _
  | text limit =>
    exact h.bind (h.blob limit) fun data => h.bind (h.text data) fun _ => h.pure _
  | fixedText length =>
    exact h.bind (h.fixedBlob length) fun data => h.bind (h.text data) fun _ => h.pure _
  | bytes limit => exact h.bind (h.blob limit) fun _ => h.pure _
  | fixedBytes length => exact h.bind (h.fixedBlob length) fun _ => h.pure _
  | array item limit ih => exact h.bind (h.array ih limit) fun _ => h.pure _
  | fixedArray item length ih => exact h.bind (h.times ih length.toNat) fun _ => h.pure _
  | optional item ih => exact h.bind (h.optional ih) fun _ => h.pure _
  | named name => exact hnamed name

theorem Component.closed_decodeAll (fields : List Component) :
    P (decodeAll named fields) := by
  induction fields with
  | nil => exact h.pure _
  | cons field fields ih =>
    exact h.bind (field.type.closed_decode h hnamed) fun _ => h.bind ih fun _ => h.pure _

theorem TypeDef.closed_decode (name : String) (decl : TypeDef) :
    P (decl.decode named name) := by
  cases decl with
  | enumeration decl =>
    refine h.bind h.word fun word => ?_
    dsimp only
    split
    · exact h.pure _
    · exact h.throw (by simp)
  | record fields => exact h.bind (closed_decodeAll h hnamed fields) fun _ => h.pure _
  | union decl =>
    refine h.bind (decl.tag.type.closed_decode h hnamed) fun tag => ?_
    split
    · exact h.bind (Ty.closed_decode h hnamed _) fun _ => h.pure _
    · exact h.pure _

end Named

theorem Schema.closed_decodeNamed (schema : Schema) (limit : Nat) :
    ∀ name, P (schema.decodeNamed limit name) := by
  induction limit with
  | zero => exact fun _ => h.throw (by simp)
  | succ limit ih =>
    intro name
    rw [Schema.decodeNamed]
    split
    · exact TypeDef.closed_decode h ih name _
    · exact h.throw (by simp)

end Closed

theorem Schema.advances_decodeNamed (schema : Schema) (limit : Nat) :
    ∀ name, Advances (schema.decodeNamed limit name) :=
  schema.closed_decodeNamed closed_advances limit

theorem Schema.advances_reader (schema : Schema) (name : String) :
    Advances (schema.reader name) :=
  fun bytes => schema.advances_decodeNamed (schema.nestingLimit bytes) name bytes

/-! ### Readers that agree on smaller inputs -/

theorem Unpack.on_bind_congr {α β : Type} {reader reader' : Unpack α}
    {next next' : α → Unpack β}
    {bytes : List UInt8} (hreader : reader.on bytes = reader'.on bytes)
    (hnext : ∀ value rest, reader.on bytes = (.ok value, rest) →
      (next value).on rest = (next' value).on rest) :
    (reader >>= next).on bytes = (reader' >>= next').on bytes := by
  rw [on_bind, on_bind, ← hreader]
  rcases hresult : reader.on bytes with ⟨error | value, rest⟩
  · rfl
  · exact hnext value rest hresult

theorem Unpack.on_times_congr {α : Type} {item item' : Unpack α} (hitem : Advances item)
    (count : Nat) :
    ∀ {bytes : List UInt8}, (∀ back, back <:+ bytes → item.on back = item'.on back) →
      (times item count).on bytes = (times item' count).on bytes := by
  induction count with
  | zero => exact fun _ => rfl
  | succ count ih =>
    intro bytes h
    refine on_bind_congr (h bytes (suffix_refl bytes)) fun value rest hvalue => ?_
    have hrest : rest <:+ bytes := hitem.suffix hvalue
    exact on_bind_congr (ih fun back hback => h back (hback.trans hrest)) fun _ _ _ => rfl

/-- Two families of readers agree on every end of `bytes` that is shorter,
and, for the names in `names`, on `bytes` itself. -/
def AgreeWithin (named named' : String → Unpack Value) (names : List String)
    (bytes : List UInt8) : Prop :=
  ∀ ⦃back⦄, back <:+ bytes → ∀ ⦃name⦄, back.length < bytes.length ∨ name ∈ names →
    (named name).on back = (named' name).on back

namespace AgreeWithin

variable {named named' : String → Unpack Value} {names names' : List String}
    {bytes back : List UInt8}

theorem mono (h : AgreeWithin named named' names bytes) (hsub : names' ⊆ names) :
    AgreeWithin named named' names' bytes :=
  fun _ hback _ hcase => h hback (hcase.imp_right fun hmem => hsub hmem)

theorem ofSuffix (h : AgreeWithin named named' names bytes) (hback : back <:+ bytes) :
    AgreeWithin named named' names back :=
  fun _ hend _ hcase =>
    h (hend.trans hback) (hcase.imp_left fun hlt => Nat.lt_of_lt_of_le hlt hback.length_le)

/-- Once a byte is taken, all names are covered. -/
theorem ofShorter (h : AgreeWithin named named' names bytes) (hback : back <:+ bytes)
    (hlt : back.length < bytes.length) : AgreeWithin named named' names' back :=
  fun _ hend _ _ => h (hend.trans hback) (.inl (Nat.lt_of_le_of_lt hend.length_le hlt))

end AgreeWithin

section Congruence

variable {named named' : String → Unpack Value} (hnamed : ∀ name, Advances (named name))

include hnamed

/-- A type that starts with a word takes it. -/
theorem Ty.takes_decode {type : Ty} (hword : type.startsWithWord = true) :
    Takes (type.decode named) := by
  cases type with
  | void | fixedText _ | fixedBytes _ | fixedArray _ _ | named _ => cases hword
  | bool => exact takes_bool.bind fun _ => advances_pure _
  | int | uint | float => exact takes_word.bind fun _ => advances_pure _
  | hyper | uhyper | double => exact takes_long.bind fun _ => advances_pure _
  | bytes limit => exact (takes_blob limit).bind fun _ => advances_pure _
  | text limit =>
    exact (takes_blob limit).bind fun data => (closed_advances.text data).bind fun _ =>
      advances_pure _
  | array item limit =>
    exact (takes_array limit (item.closed_decode closed_advances hnamed)).bind fun _ =>
      advances_pure _
  | optional item =>
    exact (takes_optional (item.closed_decode closed_advances hnamed)).bind fun _ =>
      advances_pure _

/-- The reader of a type depends on the readers of names only through
shorter inputs and leading names. -/
theorem Ty.on_decode_congr (type : Ty) :
    ∀ {bytes : List UInt8}, AgreeWithin named named' type.leading bytes →
      (type.decode named).on bytes = (type.decode named').on bytes := by
  induction type with
  | void | bool | int | uint | hyper | uhyper | float | double => exact fun _ => rfl
  | text _ | fixedText _ | bytes _ | fixedBytes _ => exact fun _ => rfl
  | named name => exact fun h => h (suffix_refl _) (.inr (mem_singleton_self name))
  | array item limit ih =>
    intro bytes h
    refine on_bind_congr (on_bind_congr rfl fun count rest hcount => ?_) fun _ _ _ => rfl
    have hrest : rest <:+ bytes := (closed_advances.length limit).suffix hcount
    refine on_times_congr (item.closed_decode closed_advances hnamed) _ fun back hback =>
      ih ?_
    exact (h.ofShorter hrest (takes_length limit hcount)).ofSuffix hback
  | fixedArray item length ih =>
    intro bytes h
    refine on_bind_congr ?_ fun _ _ _ => rfl
    exact on_times_congr (item.closed_decode closed_advances hnamed) _ fun back hback =>
      ih (h.ofSuffix hback)
  | optional item ih =>
    intro bytes h
    refine on_bind_congr (on_bind_congr rfl fun there rest hthere => ?_) fun _ _ _ => rfl
    have hrest : rest <:+ bytes := closed_advances.bool.suffix hthere
    cases there with
    | false => rfl
    | true =>
      exact on_bind_congr (ih (h.ofShorter hrest (takes_bool hthere))) fun _ _ _ => rfl

/-- What follows a part of a declaration sees shorter inputs, or the names
that lead on. -/
theorem AgreeWithin.after {type : Ty} {names bytes rest value}
    (h : AgreeWithin named named' (type.leading ++ if type.startsWithWord then [] else names)
      bytes) (hvalue : (type.decode named).on bytes = (.ok value, rest)) :
    AgreeWithin named named' names rest := by
  have hrest : rest <:+ bytes := (type.closed_decode closed_advances hnamed).suffix hvalue
  cases hword : type.startsWithWord with
  | true => exact h.ofShorter hrest (type.takes_decode hnamed hword hvalue)
  | false =>
    rw [hword] at h
    exact (h.mono (subset_append_right _ _)).ofSuffix hrest

theorem Component.on_decodeAll_congr (fields : List Component) :
    ∀ {bytes : List UInt8}, AgreeWithin named named' (leadingAll fields) bytes →
      (decodeAll named fields).on bytes = (decodeAll named' fields).on bytes := by
  induction fields with
  | nil => exact fun _ => rfl
  | cons field fields ih =>
    intro bytes h
    refine on_bind_congr ?_ fun value rest hvalue => ?_
    · exact field.type.on_decode_congr hnamed (h.mono (subset_append_left _ _))
    · exact on_bind_congr (ih (h.after hnamed hvalue)) fun _ _ _ => rfl

theorem UnionDef.on_decode_congr (decl : UnionDef) {bytes : List UInt8}
    (h : AgreeWithin named named' decl.leading bytes) :
    (decl.decode named).on bytes = (decl.decode named').on bytes := by
  refine on_bind_congr ?_ fun tag rest htag => ?_
  · exact decl.tag.type.on_decode_congr hnamed (h.mono (subset_append_left _ _))
  · have hrest := h.after hnamed htag
    cases hfind : decl.arms.find? fun component => some component.name == decl.select tag with
    | none => rfl
    | some component =>
      refine on_bind_congr (component.type.on_decode_congr hnamed (hrest.mono ?_))
        fun _ _ _ => rfl
      exact fun name hname =>
        mem_flatMap.mpr ⟨component, mem_of_find?_eq_some hfind, hname⟩

theorem TypeDef.on_decode_congr (name : String) (decl : TypeDef) {bytes : List UInt8}
    (h : AgreeWithin named named' decl.leading bytes) :
    (decl.decode named name).on bytes = (decl.decode named' name).on bytes := by
  cases decl with
  | enumeration decl => rfl
  | record fields =>
    exact on_bind_congr (on_decodeAll_congr hnamed fields h) fun _ _ _ => rfl
  | union decl => exact decl.on_decode_congr hnamed h

end Congruence

/-! ### The count of names is never used up -/

namespace Schema

variable {schema : Schema} {rank : String → Nat} {bytes back : List UInt8}

/-- How many names the reader of a name can go through on some bytes. -/
def potential (schema : Schema) (rank : String → Nat) (name : String)
    (bytes : List UInt8) : Nat :=
  rank name + bytes.length * (schema.length + 1)

theorem potential_lt_of_shorter (hschema : schema.Productive rank) (name name' : String)
    (hlt : back.length < bytes.length) :
    schema.potential rank name' back < schema.potential rank name bytes := by
  have hrank := hschema.rank_le name'
  have hmul := mul_le_mul_right (schema.length + 1) hlt
  rw [succ_mul] at hmul
  simp only [potential]
  omega

theorem potential_lt_of_leading (hschema : schema.Productive rank) {name name'}
    {decl : TypeDef} (hdecl : schema.find? name = some decl) (hlead : name' ∈ decl.leading)
    (hle : back.length ≤ bytes.length) :
    schema.potential rank name' back < schema.potential rank name bytes := by
  have hrank := hschema.rank_lt hdecl name' hlead
  have hmul := mul_le_mul_right (schema.length + 1) hle
  simp only [potential]
  omega

theorem potential_lt_nestingLimit (hschema : schema.Productive rank) (name : String)
    (bytes : List UInt8) : schema.potential rank name bytes < schema.nestingLimit bytes := by
  have hrank := hschema.rank_le name
  rw [potential, nestingLimit, succ_mul]
  omega

theorem nestingLimit_mono (hle : back.length ≤ bytes.length) :
    schema.nestingLimit back ≤ schema.nestingLimit bytes :=
  mul_le_mul_right _ (succ_le_succ hle)

/-- Any two counts above the potential give the same reading. -/
theorem on_decodeNamed_congr (hschema : schema.Productive rank) (limit : Nat) :
    ∀ {limit' : Nat} {name : String} {bytes : List UInt8},
      schema.potential rank name bytes < limit → schema.potential rank name bytes < limit' →
        (schema.decodeNamed limit name).on bytes =
          (schema.decodeNamed limit' name).on bytes := by
  -- The induction is on the first count; what is read next has a smaller potential, which
  -- both counts exceed.
  induction limit with
  | zero => exact fun h => absurd h (not_lt_zero _)
  | succ limit ih =>
    intro limit' name bytes hlimit hlimit'
    obtain ⟨limit', rfl⟩ : ∃ count, limit' = count + 1 := ⟨limit' - 1, by omega⟩
    rw [decodeNamed, decodeNamed]
    cases hdecl : schema.find? name with
    | none => rfl
    | some decl =>
      refine TypeDef.on_decode_congr (schema.advances_decodeNamed limit) name decl ?_
      intro back hback name' hcase
      have hless : schema.potential rank name' back < schema.potential rank name bytes := by
        rcases hcase with hlt | hlead
        · exact potential_lt_of_shorter hschema name name' hlt
        · exact potential_lt_of_leading hschema hdecl hlead hback.length_le
      exact ih (by omega) (by omega)

/-- A count for a whole input serves as well for each of its ends. -/
theorem agreeWithin_reader (hschema : schema.Productive rank) (bytes : List UInt8)
    (names : List String) :
    AgreeWithin (schema.decodeNamed (schema.nestingLimit bytes)) schema.reader
      names bytes := by
  intro back hback name _
  have hless := potential_lt_nestingLimit hschema name back
  exact on_decodeNamed_congr hschema _
    (Nat.lt_of_lt_of_le hless (nestingLimit_mono hback.length_le)) hless

/-- **The reader of a name is that of its declaration.**  No count of names
is left in the equation. -/
theorem on_reader (hschema : schema.Productive rank) {name : String} {decl : TypeDef}
    (hdecl : schema.find? name = some decl) (bytes : List UInt8) :
    (schema.reader name).on bytes = (decl.decode schema.reader name).on bytes := by
  have hless := potential_lt_nestingLimit hschema name bytes
  calc (schema.reader name).on bytes
      = (schema.decodeNamed (schema.nestingLimit bytes + 1) name).on bytes :=
        on_decodeNamed_congr hschema _ hless (lt_succ_of_lt hless)
    _ = (decl.decode (schema.decodeNamed (schema.nestingLimit bytes)) name).on bytes := by
        rw [decodeNamed, hdecl]
    _ = (decl.decode schema.reader name).on bytes :=
        TypeDef.on_decode_congr (schema.advances_decodeNamed _) name decl
          (agreeWithin_reader hschema bytes _)

/-- **Decoding a type is the reader of that type.** -/
theorem decode_eq_on (hschema : schema.Productive rank) (type : Ty) (bytes : List UInt8) :
    schema.decode type bytes = (type.decode schema.reader).on bytes :=
  type.on_decode_congr (schema.advances_decodeNamed _) (agreeWithin_reader hschema bytes _)

end Schema
end Xdr
