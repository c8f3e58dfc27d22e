import Mathlib.Data.List.Basic
import Xdr.Proofs.Wire.Number
import Xdr.Wire.Unpack

/-!
# What readers accept

For each reader of the wire, the inputs on which it succeeds, as an
equivalence.  Read from right to left, such an equivalence says that the
reader takes what was written and leaves the rest; read from left to right,
it says what any accepted input looks like.

## Main Statements

* `on_bind_eq_ok` — a sequence of readers succeeds when each does on what
  the one before it left
* `word_eq_ok`, `bool_eq_ok`, `length_eq_ok`, `fixedBlob_eq_ok`,
  `blob_eq_ok`, `text_eq_ok` — the readers of single items
* `reads_times`, `acceptsOnly_times` — the reader of repeated items
* `Closed` — properties that go over from the steps of a reader to the whole
  reader
* `Advances` — a reader takes whole words from the front, whether it
  succeeds or fails
-/

namespace Xdr

open List Prod Text Unpack

/-- The text that some bytes encode is the one with these bytes. -/
theorem Text.ofUtf8?_eq_some {bytes text} :
    ofUtf8? bytes = some text ↔ bytes = utf8 text := by
  simp only [ofUtf8?, utf8, String.fromUTF8?]
  constructor
  · intro h
    split at h
    · obtain rfl := Option.some.inj h
      rfl
    · cases h
  · rintro rfl
    exact dif_pos text.isValidUTF8

namespace Unpack

open Wire

variable {α β : Type} {bytes rest data filler front back taken : List UInt8} {count : Nat}
    {limit : Option UInt32}
  {value : α} {result : β} {reader item : Unpack α} {next : α → Unpack β}

/-! ### Sequences of readers -/

@[simp] theorem on_pure (value : α) (bytes : List UInt8) :
    (pure value : Unpack α).on bytes = (.ok value, bytes) := rfl

@[simp] theorem on_throw (error : WireError) (bytes : List UInt8) :
    (throw error : Unpack α).on bytes = (.error error, bytes) := rfl

/-- A reader, and the next one on what it left. -/
theorem on_bind (reader : Unpack α) (next : α → Unpack β) (bytes : List UInt8) :
    (reader >>= next).on bytes =
      match reader.on bytes with
      | (.ok value, rest) => (next value).on rest
      | (.error error, rest) => (.error error, rest) := by
  change (match (reader.run.run bytes : Except WireError α × List UInt8) with
    | (result, rest) => StateT.run (ExceptT.bindCont next result) rest) = _
  rcases h : reader.on bytes with ⟨error | value, rest⟩ <;>
    · rw [on] at h
      rw [h]
      rfl

/-- A sequence of readers succeeds when each does on what the one before it
left. -/
theorem on_bind_eq_ok :
    (reader >>= next).on bytes = (.ok result, rest) ↔
      ∃ value middle, reader.on bytes = (.ok value, middle) ∧
        (next value).on middle = (.ok result, rest) := by
  rw [on_bind]
  rcases reader.on bytes with ⟨error | value, middle⟩
  · simp
  · simp only [mk.injEq, Except.ok.injEq]
    constructor
    · intro h
      exact ⟨value, middle, ⟨rfl, rfl⟩, h⟩
    · rintro ⟨_, _, ⟨rfl, rfl⟩, h⟩
      exact h

/-- A reader whose result is only wrapped. -/
theorem on_map_eq_ok {wrap : α → β} :
    (reader >>= fun value => pure (wrap value)).on bytes = (.ok result, rest) ↔
      ∃ value, wrap value = result ∧ reader.on bytes = (.ok value, rest) := by
  rw [on_bind_eq_ok]
  constructor
  · rintro ⟨value, middle, hvalue, hwrap⟩
    obtain ⟨rfl, rfl⟩ : wrap value = result ∧ middle = rest := by simpa using hwrap
    exact ⟨value, rfl, hvalue⟩
  · rintro ⟨value, rfl, hvalue⟩
    exact ⟨value, rest, hvalue, rfl⟩

/-! ### Single items -/

/-- The bytes split off are the front of the input. -/
theorem split_eq_ok :
    split count bytes = .ok (taken, rest) ↔ bytes = taken ++ rest ∧ taken.length = count := by
  fun_induction split count bytes generalizing taken with
  | case1 bytes => cases taken <;> simp
  | case2 count =>
    constructor
    · rintro ⟨⟩
    · rintro ⟨happend, hlen⟩
      simp [(append_eq_nil_iff.mp happend.symm).1] at hlen
  | case3 count byte bytes taken' rest' hsplit ih =>
    cases taken with
    | nil => simp
    | cons first taken =>
      have hrest := @ih taken
      simp_all [and_assoc]
  | case4 count byte bytes lacking hsplit ih =>
    cases taken with
    | nil => simp
    | cons first taken =>
      have hrest := @ih taken
      simp_all

theorem on_take_of_ok {parts} (h : split count bytes = .ok parts) :
    (take count).on bytes = (.ok parts.1, parts.2) := by
  change take count bytes = _
  rw [take, h]

theorem on_take_of_error {lacking} (h : split count bytes = .error lacking) :
    (take count).on bytes = (.error (.endOfInput lacking), bytes) := by
  change take count bytes = _
  rw [take, h]

/-- What is taken is the front of the input. -/
theorem take_eq_ok : (take count).on bytes = (.ok taken, rest) ↔
    bytes = taken ++ rest ∧ taken.length = count := by
  rw [← split_eq_ok]
  cases hsplit : split count bytes with
  | error lacking => simp [on_take_of_error hsplit]
  | ok parts => simp [on_take_of_ok hsplit, Prod.ext_iff]

/-- A word is read from its spelling and nothing else. -/
theorem word_eq_ok {word} :
    Unpack.word.on bytes = (.ok word, rest) ↔ bytes = wordBytes word ++ rest := by
  simp only [Unpack.word, on_bind_eq_ok, take_eq_ok, on_pure, mk.injEq, Except.ok.injEq]
  constructor
  · rintro ⟨taken, middle, ⟨rfl, hlen⟩, rfl, rfl⟩
    rw [wordBytes_ofNat_numberOf hlen]
  · rintro rfl
    exact ⟨wordBytes word, rest, ⟨rfl, length_wordBytes word⟩,
      ofNat_numberOf_wordBytes word, rfl⟩

theorem long_eq_ok {word} :
    long.on bytes = (.ok word, rest) ↔ bytes = longBytes word ++ rest := by
  simp only [long, on_bind_eq_ok, take_eq_ok, on_pure, mk.injEq, Except.ok.injEq]
  constructor
  · rintro ⟨taken, middle, ⟨rfl, hlen⟩, rfl, rfl⟩
    rw [longBytes_ofNat_numberOf hlen]
  · rintro rfl
    exact ⟨longBytes word, rest, ⟨rfl, length_longBytes word⟩,
      ofNat_numberOf_longBytes word, rfl⟩

/-- Of the words, only zero and one are truth values. -/
theorem bool_eq_ok {value} :
    Unpack.bool.on bytes = (.ok value, rest) ↔
      bytes = wordBytes (if value then 1 else 0) ++ rest := by
  simp only [Unpack.bool, on_bind_eq_ok, word_eq_ok]
  constructor
  · rintro ⟨word, middle, rfl, hnext⟩
    -- Only the words 0 and 1 get past the two tests.
    split at hnext
    · simp_all
    · split at hnext
      · simp_all
      · simp at hnext
  · rintro rfl
    refine ⟨_, rest, rfl, ?_⟩
    cases value <;> simp

/-- The number of items is accepted when it is within the limit. -/
theorem length_eq_ok {count} :
    (Unpack.length limit).on bytes = (.ok count, rest) ↔
      bytes = wordBytes count ++ rest ∧ ∀ most ∈ limit, count ≤ most := by
  simp only [Unpack.length, on_bind_eq_ok, word_eq_ok]
  cases limit with
  | none =>
    simp only [on_pure, mk.injEq, Except.ok.injEq]
    constructor
    · rintro ⟨found, middle, rfl, rfl, rfl⟩
      exact ⟨rfl, by simp⟩
    · rintro ⟨rfl, -⟩
      exact ⟨count, rest, rfl, rfl, rfl⟩
  | some most =>
    simp only [Option.mem_some_iff, forall_eq']
    constructor
    · rintro ⟨found, middle, rfl, hnext⟩
      split at hnext
      · simp at hnext
      · simp_all
    · rintro ⟨rfl, hle⟩
      refine ⟨count, rest, rfl, ?_⟩
      rw [if_neg (UInt32.not_lt.mpr hle), on_pure]

/-- A blob of a given length is that many bytes and any filling up to the
next boundary. -/
theorem fixedBlob_eq_ok {count} :
    (fixedBlob count).on bytes = (.ok data, rest) ↔
      ∃ filler, bytes = data ++ filler ++ rest ∧ data.length = count.toNat ∧
        filler.length = padding count.toNat := by
  simp only [fixedBlob, on_bind_eq_ok, take_eq_ok, on_pure, mk.injEq, Except.ok.injEq]
  constructor
  · rintro ⟨taken, middle, ⟨rfl, hlen⟩, rfl, rfl⟩
    refine ⟨taken.drop count.toNat, ?_, ?_, ?_⟩
    · rw [take_append_drop]
    · rw [length_take]; omega
    · rw [length_drop]; omega
  · rintro ⟨filler, rfl, hdata, hfiller⟩
    refine ⟨data ++ filler, rest, ⟨rfl, ?_⟩, ?_, rfl⟩
    · rw [length_append, hdata, hfiller]
    · rw [← hdata, take_left]

/-- A blob after its length. -/
theorem blob_eq_ok :
    (blob limit).on bytes = (.ok data, rest) ↔
      ∃ (count : UInt32) (filler : List UInt8),
        bytes = wordBytes count ++ (data ++ filler ++ rest) ∧ (∀ most ∈ limit, count ≤ most) ∧
        data.length = count.toNat ∧ filler.length = padding count.toNat := by
  simp only [blob, on_bind_eq_ok, length_eq_ok, fixedBlob_eq_ok]
  constructor
  · rintro ⟨count, middle, ⟨rfl, hlimit⟩, filler, rfl, hdata, hfiller⟩
    exact ⟨count, filler, rfl, hlimit, hdata, hfiller⟩
  · rintro ⟨count, filler, rfl, hlimit, hdata, hfiller⟩
    exact ⟨count, _, ⟨rfl, hlimit⟩, filler, rfl, hdata, hfiller⟩

/-- Text is read from its encoding and nothing else. -/
theorem text_eq_ok {text} :
    (Unpack.text data).on bytes = (.ok text, rest) ↔ data = utf8 text ∧ bytes = rest :=
      by
  rw [← ofUtf8?_eq_some, Unpack.text]
  cases ofUtf8? data <;> simp

/-! ### Spellings

A reader is complete for a spelling when it takes exactly that spelling from
the front of every input, and sound when it accepts nothing else.  The two
notions are kept apart because they are carried through different
inductions: completeness along a value, soundness along the names that a
reader goes through. -/

/-- The reader takes `bytes` from the front of every input that starts with
them, and gives `value`. -/
def Reads (reader : Unpack α) (bytes : List UInt8) (value : α) : Prop :=
  ∀ rest, reader.on (bytes ++ rest) = (.ok value, rest)

/-- Whatever the reader takes is a spelling of what it gives. -/
def AcceptsOnly (reader : Unpack α) (Spelling : α → List UInt8 → Prop) : Prop :=
  ∀ ⦃bytes value rest⦄, reader.on bytes = (.ok value, rest) →
    ∃ taken, bytes = taken ++ rest ∧ Spelling value taken

/-- Readers in sequence are complete for the spellings in sequence. -/
theorem Reads.bind (hfront : Reads reader front value)
    (hback : Reads (next value) back result) :
    Reads (reader >>= next) (front ++ back) result := by
  intro rest
  rw [append_assoc]
  exact on_bind_eq_ok.mpr ⟨value, back ++ rest, hfront _, hback rest⟩

theorem Reads.map {reader bytes value} (f : α → β) (h : Reads reader bytes value) :
    Reads (reader >>= fun value => pure (f value)) bytes (f value) := by
  intro rest
  exact on_bind_eq_ok.mpr ⟨value, rest, h rest, rfl⟩

theorem reads_word (word : UInt32) : Reads Unpack.word (wordBytes word) word :=
  fun _ => word_eq_ok.mpr rfl

theorem reads_long (word : UInt64) : Reads long (longBytes word) word :=
  fun _ => long_eq_ok.mpr rfl

theorem reads_bool (value : Bool) : Reads bool (wordBytes (if value then 1 else 0)) value :=
  fun _ => bool_eq_ok.mpr rfl

theorem reads_fixedBlob {count : UInt32} (hdata : data.length = count.toNat)
    (hfiller : filler.length = padding count.toNat) :
    Reads (fixedBlob count) (data ++ filler) data :=
  fun _ => fixedBlob_eq_ok.mpr ⟨filler, rfl, hdata, hfiller⟩

/-- A blob reads back with any padding. -/
theorem reads_blob {count} (hlimit : ∀ most ∈ limit, count ≤ most)
    (hdata : data.length = count.toNat) (hfiller : filler.length = padding count.toNat) :
    Reads (blob limit) (wordBytes count ++ (data ++ filler)) data :=
  fun rest => blob_eq_ok.mpr ⟨count, filler, by simp, hlimit, hdata, hfiller⟩

theorem reads_text (text : String) : Reads (Unpack.text (utf8 text)) [] text :=
  fun _ => text_eq_ok.mpr ⟨rfl, rfl⟩

theorem reads_optional_none (item : Unpack α) : Reads (optional item) (wordBytes 0) none :=
  fun rest => on_bind_eq_ok.mpr ⟨false, rest, reads_bool false rest, rfl⟩

/-- A value that is present is spelled behind a one. -/
theorem reads_optional_some (h : Reads item bytes value) :
    Reads (optional item) (wordBytes 1 ++ bytes) (some value) := by
  intro rest
  rw [append_assoc]
  exact on_bind_eq_ok.mpr ⟨true, bytes ++ rest, reads_bool true _, h.map some rest⟩

/-- Repeated items are read one after the other; each part is an item with
its spelling. -/
theorem reads_times {parts : List (α × List UInt8)}
    (h : ∀ part ∈ parts, Reads item part.2 part.1) :
    Reads (times item parts.length) (parts.flatMap snd) (parts.map fst) := by
  induction parts with
  | nil => exact fun _ => rfl
  | cons part parts ih =>
    rw [forall_mem_cons] at h
    exact h.1.bind ((ih h.2).map _)

/-- Repeated items that were read are spelled one after the other. -/
theorem acceptsOnly_times {Spelling : α → List UInt8 → Prop}
    (hitem : AcceptsOnly item Spelling) (count : Nat) :
    AcceptsOnly (times item count) fun values taken =>
      ∃ parts : List (α × List UInt8), parts.length = count ∧ values = parts.map fst ∧
        taken = parts.flatMap snd ∧ ∀ part ∈ parts, Spelling part.1 part.2 := by
  induction count with
  | zero =>
    intro bytes values rest h
    obtain ⟨rfl, rfl⟩ : values = [] ∧ bytes = rest := by simpa [times, eq_comm] using h
    exact ⟨[], rfl, [], rfl, rfl, rfl, by simp⟩
  | succ count ih =>
    intro bytes values rest h
    obtain ⟨first, middle, hfirst, h⟩ := on_bind_eq_ok.mp h
    obtain ⟨others, rfl, hothers⟩ := on_map_eq_ok.mp h
    obtain ⟨front, rfl, hspelled⟩ := hitem hfirst
    obtain ⟨_, rfl, parts, rfl, rfl, rfl, hparts⟩ := ih hothers
    exact ⟨front ++ parts.flatMap snd, by simp, (first, front) :: parts, rfl, rfl, rfl,
      forall_mem_cons.mpr ⟨hspelled, hparts⟩⟩

/-! ### What sequences preserve -/

/-- A property of readers that the steps of the wire have, and that goes
over from readers to their sequence.  A step takes whole words, or fails for
another reason than a lack of bytes. -/
structure Closed (P : ∀ {α : Type}, Unpack α → Prop) : Prop where
  pure : ∀ {α : Type} (value : α), P (pure value : Unpack α)
  throw : ∀ {α : Type} {error : WireError}, (∀ needed, error ≠ .endOfInput needed) →
    P (throw error : Unpack α)
  take : ∀ {count : Nat}, 4 ∣ count → P (take count)
  bind : ∀ {α β : Type} {reader : Unpack α} {next : α → Unpack β}, P reader →
    (∀ value, P (next value)) → P (reader >>= next)

namespace Closed

variable {P : ∀ {α : Type}, Unpack α → Prop} (h : Closed @P)
include h

theorem word : P word :=
  h.bind (h.take (Nat.dvd_refl 4)) fun _ => h.pure _

theorem long : P long :=
  h.bind (h.take ⟨2, rfl⟩) fun _ => h.pure _

theorem bool : P bool := by
  refine h.bind h.word fun word => ?_
  split
  · exact h.pure _
  · split
    · exact h.pure _
    · exact h.throw (by simp)

theorem length (limit : Option UInt32) : P (length limit) := by
  refine h.bind h.word fun found => ?_
  cases limit with
  | none => exact h.pure _
  | some most =>
    dsimp only
    split
    · exact h.throw (by simp)
    · exact h.pure _

theorem fixedBlob (count : UInt32) : P (fixedBlob count) :=
  h.bind (h.take (alignment_dvd_add_padding count.toNat)) fun _ => h.pure _

theorem blob (limit : Option UInt32) : P (blob limit) :=
  h.bind (h.length limit) h.fixedBlob

theorem text (data : List UInt8) : P (text data) := by
  rw [Unpack.text]
  split
  · exact h.pure _
  · exact h.throw (by simp)

/-- Repeating an item, by induction on the count. -/
theorem times (hitem : P item) (count : Nat) : P (times item count) := by
  induction count with
  | zero => exact h.pure _
  | succ count ih => exact h.bind hitem fun _ => h.bind ih fun _ => h.pure _

theorem array {item : Unpack α} (hitem : P item) (limit : Option UInt32) :
    P (array limit item) :=
  h.bind (h.length limit) fun count => h.times hitem count.toNat

/-- What follows the truth value of an optional item. -/
theorem optional_next (hitem : P item) (there : Bool) :
    P (if there then (do return some (← item)) else return none : Unpack (Option α)) := by
  split
  · exact h.bind hitem fun _ => h.pure _
  · exact h.pure _

theorem optional {item : Unpack α} (hitem : P item) : P (optional item) :=
  h.bind h.bool (h.optional_next hitem)

end Closed

/-! ### Advancing

Whether it succeeds or fails, a reader leaves an end of its input, and what
it took is a number of whole words. -/

/-- The reader takes whole words from the front of its input, whether it
succeeds or fails. -/
def Advances (reader : Unpack α) : Prop :=
  ∀ bytes, ∃ taken, bytes = taken ++ (reader.on bytes).2 ∧ 4 ∣ taken.length

/-- A reader that leaves its input as it is. -/
theorem advances_of_stays (h : ∀ bytes, (reader.on bytes).2 = bytes) : Advances reader :=
  fun bytes => ⟨[], by rw [h]; rfl, Nat.dvd_zero 4⟩

theorem advances_pure (value : α) : Advances (pure value) :=
  advances_of_stays fun _ => rfl

theorem advances_throw (error : WireError) : Advances (throw error : Unpack α) :=
  advances_of_stays fun _ => rfl

/-- Readers that advance do so in sequence. -/
theorem Advances.bind (hreader : Advances reader) (hnext : ∀ value, Advances (next value)) :
    Advances (reader >>= next) := by
  intro bytes
  obtain ⟨front, hfront, hfrontDvd⟩ := hreader bytes
  rw [on_bind]
  rcases hresult : reader.on bytes with ⟨error | value, middle⟩ <;> rw [hresult] at hfront
  · exact ⟨front, hfront, hfrontDvd⟩
  · obtain ⟨back, hback, hbackDvd⟩ := hnext value middle
    refine ⟨front ++ back, ?_, ?_⟩
    · rw [append_assoc, ← hback]
      exact hfront
    · rw [length_append]
      exact Nat.dvd_add hfrontDvd hbackDvd

/-- Bytes are taken all or not at all. -/
theorem advances_take (h : 4 ∣ count) : Advances (take count) := by
  intro bytes
  cases hsplit : split count bytes with
  | error lacking =>
    -- Nothing is taken of an input that is too short.
    rw [on_take_of_error hsplit]
    exact ⟨[], rfl, Nat.dvd_zero 4⟩
  | ok parts =>
    obtain ⟨hbytes, hlen⟩ := split_eq_ok.mp hsplit
    rw [on_take_of_ok hsplit]
    exact ⟨parts.1, hbytes, hlen ▸ h⟩

/-- Every reader made of these advances. -/
theorem closed_advances : Closed @Advances :=
  ⟨advances_pure, fun _ => advances_throw _, advances_take, Advances.bind⟩

/-- What a reader leaves is an end of its input. -/
theorem Advances.suffix (h : Advances reader) {result}
    (hresult : reader.on bytes = (result, rest)) : rest <:+ bytes := by
  obtain ⟨taken, htaken, -⟩ := h bytes
  rw [hresult] at htaken
  exact ⟨taken, htaken.symm⟩

/-- The reader takes at least a byte whenever it succeeds. -/
def Takes (reader : Unpack α) : Prop :=
  ∀ ⦃bytes value rest⦄, reader.on bytes = (.ok value, rest) → rest.length < bytes.length

/-- Who takes bytes first takes some in all. -/
theorem Takes.bind (hreader : Takes reader) (hnext : ∀ value, Advances (next value)) :
    Takes (reader >>= next) := by
  intro bytes result rest h
  obtain ⟨value, middle, hvalue, h⟩ := on_bind_eq_ok.mp h
  exact Nat.lt_of_le_of_lt ((hnext value).suffix h).length_le (hreader hvalue)

theorem takes_word : Takes Unpack.word := by
  intro bytes word rest h
  rw [word_eq_ok.mp h, length_append, length_wordBytes]
  omega

theorem takes_long : Takes long := by
  intro bytes word rest h
  rw [long_eq_ok.mp h, length_append, length_longBytes]
  omega

theorem takes_bool : Takes bool := by
  intro bytes value rest h
  rw [bool_eq_ok.mp h, length_append, length_wordBytes]
  omega

theorem takes_length (limit : Option UInt32) : Takes (length limit) := by
  intro bytes count rest h
  rw [(length_eq_ok.mp h).1, length_append, length_wordBytes]
  omega

theorem takes_blob (limit : Option UInt32) : Takes (blob limit) :=
  (takes_length limit).bind closed_advances.fixedBlob

theorem takes_array (limit : Option UInt32) (hitem : Advances item) :
    Takes (array limit item) :=
  (takes_length limit).bind fun count => closed_advances.times hitem count.toNat

theorem takes_optional (hitem : Advances item) : Takes (optional item) :=
  takes_bool.bind (closed_advances.optional_next hitem)

end Unpack
end Xdr
