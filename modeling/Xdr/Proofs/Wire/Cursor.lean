import Xdr.Proofs.Wire.Extension

/-!
# Reading with a position

Readers of bytes are compared with a machine that keeps the data and a
position in it, and computes with words of 64 bits.  A difference, a sum or
a slice that is out of range is an outcome of its own there, apart from the
failures of the wire, and no sequence of operations comes to it.

## Main Statements

* `Wire.Decoder.run_eq` — from a sound position, a decoder does what its
  reader does
* `Wire.Decoder.run_within` — positions stay sound and never go back

## Design Notes

A decoder carries the proofs that it takes whole words, and not more than a
word of 64 bits can count.  So what an operation has to show, a blob with
any length above all, is shown where the operation is defined.
-/

namespace Xdr.Wire

open List Option

/-! ### Positions -/

/-- A difference, unless it is negative. -/
def minus (a b : Nat) : Option Nat :=
  if b ≤ a then some (a - b) else none

/-- A sum, unless a word of 64 bits cannot hold it. -/
def plus (a b : Nat) : Option Nat :=
  if a + b < 0x10000000000000000 then some (a + b) else none

/-- The bytes from `start` to `stop`, unless there are no such bytes. -/
def slice (bytes : List UInt8) (start stop : Nat) : Option (List UInt8) :=
  if start ≤ stop ∧ stop ≤ bytes.length then some ((bytes.take stop).drop start) else none

/-- Where reading stands in some data. -/
structure Cursor where
  data : List UInt8
  position : Nat
  deriving DecidableEq, Repr

namespace Cursor

/-- The bytes from the position on. -/
def left (cursor : Cursor) : List UInt8 :=
  cursor.data.drop cursor.position

/-- The next bytes, and the position behind them; nothing comes of a number
or a slice that is out of range. -/
def take (cursor : Cursor) (count : Nat) :
    Option (Except WireError (List UInt8) × Cursor) := do
  let available ← minus cursor.data.length cursor.position
  if available < count then return (.error (.endOfInput (count - available)), cursor)
  else
    let stop ← plus cursor.position count
    return (.ok (← slice cursor.data cursor.position stop), ⟨cursor.data, stop⟩)

/-- The position is a boundary of words inside the data, the length of which
a word of 64 bits can hold. -/
structure Sound (cursor : Cursor) : Prop where
  within : cursor.position ≤ cursor.data.length
  aligned : 4 ∣ cursor.position
  held : cursor.data.length < 0x10000000000000000

/-- The position has moved on, if at all, and is sound. -/
structure Moves (cursor next : Cursor) : Prop where
  data : next.data = cursor.data
  forward : cursor.position ≤ next.position
  sound : next.Sound

theorem Sound.moves {cursor : Cursor} (h : cursor.Sound) : cursor.Moves cursor :=
  ⟨rfl, Nat.le_refl _, h⟩

theorem take_eq {cursor : Cursor} (h : cursor.Sound) (count : Nat) :
    cursor.take count = some
      (if cursor.left.length < count then
        (.error (.endOfInput (count - cursor.left.length)), cursor)
        else (.ok (cursor.left.take count), ⟨cursor.data, cursor.position + count⟩)) := by
  obtain ⟨hwithin, -, hheld⟩ := h
  have hleft : cursor.left.length = cursor.data.length - cursor.position := length_drop
  rw [take, minus, if_pos hwithin, bind_eq_bind, bind_some, ← hleft]
  split
  · rfl
  · next hle =>
    rw [hleft] at hle
    rw [plus, if_pos (by omega), bind_some, slice, if_pos ⟨Nat.le_add_right _ _, by omega⟩,
      drop_take, Nat.add_sub_cancel_left]
    rfl

end Cursor

/-! ### Decoders -/

/-- Steps of reading.  What follows a step may depend on its result, be it a
failure. -/
inductive Decoder : Type → Type 1 where
  | done {α : Type} (result : Except WireError α) : Decoder α
  /-- Takes whole words, and keeps their bytes up to the filler. -/
  | take (kept filler : Nat) (aligned : 4 ∣ kept + filler) (held :
    kept + filler < 0x10000000000000000) : Decoder (List UInt8)
  | remaining : Decoder (List UInt8)
  | andThen {α β : Type} (first : Decoder α) (next : Except WireError α →
    Decoder β) : Decoder β

namespace Decoder

variable {α β : Type}

/-- A decoder as a reader of bytes. -/
def reader {α : Type} : Decoder α → Unpack α
  | done result => fun bytes => (result, bytes)
  | take kept filler _ _ => do return (← Unpack.take (kept + filler)).take kept
  | remaining => fun bytes => (.ok bytes, bytes)
  | andThen first next =>
    fun bytes => (next (first.reader.on bytes).1).reader.on (first.reader.on bytes).2

/-- A decoder from a position on; nothing comes of a number or a slice that
is out of range. -/
def run {α : Type} : Decoder α → Cursor → Option (Except WireError α × Cursor)
  | done result, cursor => some (result, cursor)
  | take kept filler _ _, cursor => do
    match ← cursor.take (← plus kept filler) with
    | (.ok taken, next) => return (.ok (← slice taken 0 kept), next)
    | (.error error, next) => return (.error error, next)
  | remaining, cursor => do
    return (.ok (← slice cursor.data cursor.position cursor.data.length), cursor)
  | andThen first next, cursor => do
    let (result, middle) ← first.run cursor
    (next result).run middle

/-- **A decoder does what its reader does**, never out of range. -/
theorem run_eq (decoder : Decoder α) {cursor : Cursor} (h : cursor.Sound) :
    ∃ next, decoder.run cursor = some ((decoder.reader.on cursor.left).1, next) ∧
      next.left = (decoder.reader.on cursor.left).2 ∧ cursor.Moves next := by
  induction decoder generalizing cursor with
  | done result => exact ⟨cursor, rfl, rfl, h.moves⟩
  | take kept filler aligned held =>
    have hsum : plus kept filler = some (kept + filler) := if_pos held
    rw [run, hsum, bind_eq_bind, bind_some, Cursor.take_eq h, reader, Unpack.on_bind]
    generalize hcount : kept + filler = count at *
    by_cases hlt : cursor.left.length < count
    · have hshort : (Unpack.take count).on cursor.left =
          (.error (.endOfInput (count - cursor.left.length)), cursor.left) :=
        Unpack.take_eq_error.mpr ⟨_, rfl, rfl, by omega, by omega⟩
      rw [if_pos hlt, hshort]
      exact ⟨cursor, rfl, rfl, h.moves⟩
    · have hlen : (cursor.left.take count).length = count :=
        length_take_of_le (Nat.not_lt.mp hlt)
      have htaken : (Unpack.take count).on cursor.left = (.ok (cursor.left.take count),
        cursor.left.drop count) :=
        Unpack.take_eq_ok.mpr ⟨(take_append_drop count _).symm, hlen⟩
      have hslice :
        slice (cursor.left.take count) 0 kept = some ((cursor.left.take count).take kept) :=
        if_pos ⟨Nat.zero_le kept, by omega⟩
      rw [if_neg hlt, htaken]
      refine ⟨⟨cursor.data, cursor.position + count⟩, ?_, drop_drop.symm, rfl,
        Nat.le_add_right _ _, ?_, Nat.dvd_add h.aligned aligned, h.held⟩
      · change (slice (cursor.left.take count) 0 kept).bind _ = _
        rw [hslice]
        rfl
      · have hwithin := h.within
        rw [Cursor.left, length_drop] at hlt
        dsimp only
        omega
  | remaining =>
    refine ⟨cursor, ?_, rfl, h.moves⟩
    rw [run, slice, if_pos ⟨h.within, Nat.le_refl _⟩, take_length]
    rfl
  | andThen first next ihfirst ihnext =>
    obtain ⟨middle, hfirst, hmiddle, hmoves⟩ := ihfirst h
    obtain ⟨last, hnext, hlast, hmoves'⟩ :=
      ihnext (first.reader.on cursor.left).1 hmoves.sound
    rw [hmiddle] at hnext hlast
    refine ⟨last, ?_, hlast, hmoves'.data.trans hmoves.data,
      Nat.le_trans hmoves.forward hmoves'.forward, hmoves'.sound⟩
    rw [run, hfirst]
    exact hnext

/-! ### Operations -/

/-- What follows a step unless it failed. -/
def onSuccess (next : α → Decoder β) : Except WireError α → Decoder β
  | .ok value => next value
  | .error error => done (.error error)

instance : Monad Decoder where
  pure value := done (.ok value)
  bind first next := first.andThen (onSuccess next)

/-- Steps one after the other are readers one after the other. -/
theorem reader_bind (first : Decoder α) (next : α → Decoder β) :
    (first >>= next).reader = first.reader >>= fun value => (next value).reader := by
  funext bytes
  change (onSuccess next (first.reader.on bytes).1).reader.on (first.reader.on bytes).2 =
    (first.reader >>= fun value => (next value).reader).on bytes
  rw [Unpack.on_bind]
  rcases first.reader.on bytes with ⟨error | value, rest⟩ <;> rfl

/-- A 32-bit word. -/
def word : Decoder UInt32 := do
  return UInt32.ofNat (numberOf (← take 4 0 (by decide) (by decide)))

/-- A 64-bit word. -/
def long : Decoder UInt64 := do
  return UInt64.ofNat (numberOf (← take 8 0 (by decide) (by decide)))

/-- A truth value. -/
def bool : Decoder Bool := do
  let value ← word
  if value = 0 then return false
  else if value = 1 then return true
  else done (.error (.badBool value))

/-- The number of items of a sequence, within the limit. -/
def length (limit : Option UInt32) : Decoder UInt32 := do
  let found ← word
  match limit with
  | some limit =>
    if limit < found then done (.error (.tooLong limit found.toNat)) else return found
  | none => return found

theorem add_padding_lt (count : UInt32) :
    count.toNat + padding count.toNat < 0x10000000000000000 := by
  have hcount := count.toNat_lt
  rw [padding, alignment]
  omega

/-- A given number of bytes and their padding. -/
def fixedBlob (count : UInt32) : Decoder (List UInt8) :=
  take count.toNat (padding count.toNat) (alignment_dvd_add_padding _) (add_padding_lt count)

/-- Bytes after their length. -/
def blob (limit : Option UInt32) : Decoder (List UInt8) := do
  fixedBlob (← length limit)

/-- The text that some bytes encode. -/
def text (bytes : List UInt8) : Decoder String :=
  match Text.ofUtf8? bytes with
  | some text => return text
  | none => done (.error .badText)

/-- A given number of items. -/
def times (item : Decoder α) : Nat → Decoder (List α)
  | 0 => return []
  | count + 1 => do
    let first ← item
    return first :: (← times item count)

/-- A given number of items, for which room is made according to the bytes
left. -/
def fixedArray (count : UInt32) (item : Decoder α) : Decoder (List α) := do
  let _ ← remaining
  times item count.toNat

/-- Items after their number. -/
def array (limit : Option UInt32) (item : Decoder α) : Decoder (List α) := do
  fixedArray (← length limit) item

/-- An item after the truth value that says whether it is there. -/
def optional (item : Decoder α) : Decoder (Option α) := do
  if ← bool then return some (← item) else return none

theorem reader_take {count} (aligned : 4 ∣ count + 0)
    (held : count + 0 < 0x10000000000000000) :
    (take count 0 aligned held).reader = Unpack.take count := by
  funext bytes
  change (take count 0 aligned held).reader.on bytes = (Unpack.take count).on bytes
  rw [reader, Unpack.on_bind, Nat.add_zero]
  rcases hresult : (Unpack.take count).on bytes with ⟨error | taken, rest⟩
  · rfl
  · obtain ⟨-, rfl⟩ := Unpack.take_eq_ok.mp hresult
    dsimp only
    rw [take_length, Unpack.on_pure]

theorem reader_word : word.reader = Unpack.word := by
  rw [word, reader_bind, reader_take]
  rfl

theorem reader_long : long.reader = Unpack.long := by
  rw [long, reader_bind, reader_take]
  rfl

theorem reader_bool : bool.reader = Unpack.bool := by
  rw [bool, reader_bind, reader_word, Unpack.bool]
  refine bind_congr fun value => ?_
  split
  · rfl
  · split <;> rfl

theorem reader_length (limit : Option UInt32) :
    (length limit).reader = Unpack.length limit := by
  rw [length, reader_bind, reader_word, Unpack.length]
  refine bind_congr fun found => ?_
  cases limit with
  | none => rfl
  | some limit =>
    dsimp only
    split <;> rfl

theorem reader_blob (limit : Option UInt32) : (blob limit).reader = Unpack.blob limit := by
  rw [blob, reader_bind, reader_length]
  rfl

theorem reader_text (bytes : List UInt8) : (text bytes).reader = Unpack.text bytes := by
  unfold text Unpack.text
  cases Text.ofUtf8? bytes <;> rfl

theorem reader_times (item : Decoder α) (count : Nat) :
    (times item count).reader = Unpack.times item.reader count := by
  induction count with
  | zero => rfl
  | succ count ih =>
    rw [times, reader_bind, Unpack.times]
    refine bind_congr fun first => ?_
    rw [reader_bind, ih]
    rfl

theorem reader_fixedArray (count : UInt32) (item : Decoder α) :
    (fixedArray count item).reader = Unpack.fixedArray count item.reader := by
  rw [Unpack.fixedArray, ← reader_times]
  rfl

theorem reader_array (limit : Option UInt32) (item : Decoder α) :
    (array limit item).reader = Unpack.array limit item.reader := by
  rw [array, reader_bind, reader_length, Unpack.array]
  exact bind_congr fun count => reader_fixedArray count item

theorem reader_optional (item : Decoder α) :
    (optional item).reader = Unpack.optional item.reader := by
  rw [optional, reader_bind, reader_bool, Unpack.optional]
  refine bind_congr fun there => ?_
  split
  · exact reader_bind item _
  · rfl

/-- **Reading stays within the data.**  The operations are decoders, and so
is what is made of them in any way: with one as the item of another, or with
more to read after a failure.  From a sound position a decoder has a result,
which is that of its reader on the bytes left, so nothing was out of range
on the way.  The position then is not before the one it started from, not
behind the end of the data, and at a boundary of words.  Bytes that are not
all there leave it where it was. -/
theorem run_within (decoder : Decoder α) {cursor : Cursor} (h : cursor.Sound) :
    (∃ next, decoder.run cursor = some ((decoder.reader.on cursor.left).1, next) ∧
      next.left = (decoder.reader.on cursor.left).2 ∧ next.data = cursor.data ∧
      cursor.position ≤ next.position ∧ next.position ≤ cursor.data.length ∧
      4 ∣ next.position) ∧
    (∀ count, cursor.left.length < count →
      cursor.take count = some (.error (.endOfInput (count - cursor.left.length)), cursor)) ∧
    (word.reader = Unpack.word ∧ long.reader = Unpack.long ∧ bool.reader = Unpack.bool) ∧
    (∀ count, (fixedBlob count).reader = Unpack.fixedBlob count ∧
      (fixedArray count decoder).reader = Unpack.fixedArray count decoder.reader) ∧
    (∀ limit, (blob limit).reader = Unpack.blob limit ∧
      (array limit decoder).reader = Unpack.array limit decoder.reader) ∧
    (∀ bytes, (text bytes).reader = Unpack.text bytes) ∧
    (optional decoder).reader = Unpack.optional decoder.reader := by
  refine ⟨?_, fun count hlt => ?_, ⟨reader_word, reader_long, reader_bool⟩,
    fun count => ⟨rfl, reader_fixedArray count decoder⟩, fun limit =>
      ⟨reader_blob limit, reader_array limit decoder⟩, reader_text, reader_optional decoder⟩
  · obtain ⟨next, hrun, hleft, hmoves⟩ := decoder.run_eq h
    exact ⟨next, hrun, hleft, hmoves.data, hmoves.forward, hmoves.data ▸ hmoves.sound.within,
      hmoves.sound.aligned⟩
  · rw [Cursor.take_eq h, if_pos hlt]

/-- A length that the data does not have is no reason to stop. -/
theorem run_within_greatLength :
    (⟨[255, 255, 255, 255, 0, 0, 0, 1], 0⟩ : Cursor).Sound ∧
      ∃ next,
        ((blob none).andThen fun _ => word).run ⟨[255, 255, 255, 255, 0, 0, 0, 1], 0⟩ =
          some (.ok 1, next) ∧ next.left = [] := by
  have hsound : (⟨[255, 255, 255, 255, 0, 0, 0, 1], 0⟩ : Cursor).Sound :=
    ⟨Nat.zero_le _, by decide, by decide⟩
  obtain ⟨⟨next, hrun, hleft, -⟩, -⟩ := run_within ((blob none).andThen fun _ => word) hsound
  exact ⟨hsound, next, hrun, hleft⟩

end Decoder
end Xdr.Wire
