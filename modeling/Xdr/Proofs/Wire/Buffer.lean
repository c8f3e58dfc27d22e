import Xdr.Proofs.Wire.Writer

/-!
# Writing into a buffer

Writers are compared with steps that are handed a buffer, and that stop at
the first failure with what they have put into it.

## Main Statements

* `Wire.Encoder.adds_run` — the steps of an encoder put behind a buffer what
  its output holds
* `Wire.Encoder.run_appends` — they put whole words there, whatever the
  buffer, also up to a failure

## Design Notes

The items of a sequence, and what follows an encoder, are given by functions
to encoders.  So encoders are nested in every way, and may go on after a
failure.
-/

namespace Xdr.Wire

open List Packed Packer

/-! ### Steps -/

/-- A step that adds to a buffer, and why it stopped if it did. -/
abbrev Filling := Packer → Packer × Option WireError

namespace Filling

variable {α : Type} {first second : Filling} {front back : Packed}

/-- Adds some bytes. -/
def put (bytes : List UInt8) : Filling :=
  fun packer => (⟨packer.bytes ++ bytes⟩, none)

/-- Stops if there is a fault. -/
def check (fault : Option WireError) : Filling :=
  fun packer => (packer, fault)

/-- Goes on with another step unless there was a failure. -/
def andThen (first second : Filling) : Filling := fun packer =>
  match first packer with
  | (packer, some failure) => (packer, some failure)
  | (packer, none) => second packer

/-- A step for each item, up to the first failure. -/
def each (step : α → Filling) : List α → Filling
  | [] => check none
  | item :: items => (step item).andThen (each step items)

/-- Adds some bytes, and zeros up to a whole word. -/
def putPadded (bytes : List UInt8) : Filling :=
  (put bytes).andThen (put (replicate (padding bytes.length) 0))

/-- From every buffer, the step adds an output of whole words and stops as
it does. -/
structure Adds (step : Filling) (output : Packed) : Prop where
  run : ∀ packer, step packer = (packer.add output, output.failure)
  whole : 4 ∣ output.content.length

theorem adds_word (value : UInt32) : Adds (put (wordBytes value)) (.word value) :=
  ⟨fun _ => rfl, 1, length_wordBytes value⟩

theorem adds_long (value : UInt64) : Adds (put (longBytes value)) (.long value) :=
  ⟨fun _ => rfl, 2, length_longBytes value⟩

theorem adds_check (fault : Option WireError) : Adds (check fault) ⟨[], fault⟩ where
  run packer := by rw [check, add, append_nil]
  whole := Nat.dvd_zero 4

theorem adds_putPadded (bytes : List UInt8) :
    Adds (putPadded bytes) (.wrote (padded bytes)) where
  run packer := by
    change (mk ((packer.bytes ++ bytes) ++ replicate (padding bytes.length) 0), none) = _
    rw [append_assoc]
    rfl
  whole := by
    change 4 ∣ (bytes ++ replicate (padding bytes.length) 0).length
    rw [length_append, length_replicate]
    exact alignment_dvd_add_padding bytes.length

theorem Adds.andThen (hfirst : Adds first front) (hsecond : Adds second back) :
    Adds (first.andThen second) (front.andThen back) := by
  rcases front with ⟨content, _ | failure⟩
  · refine ⟨fun packer => ?_, ?_⟩
    · rw [Filling.andThen, hfirst.run packer]
      dsimp only
      rw [hsecond.run, add, add, append_assoc]
      rfl
    · rw [Output.andThen, length_append]
      exact Nat.dvd_add hfirst.whole hsecond.whole
  · -- what would come next does not change what was added
    refine ⟨fun packer => ?_, hfirst.whole⟩
    rw [Filling.andThen, hfirst.run packer]
    rfl

theorem adds_each {step output} (h : ∀ item, Adds (step item) (output item))
    (items : List α) : Adds (each step items) (Output.sequence (items.map output)) := by
  induction items with
  | nil => exact adds_check none
  | cons item items ih => exact (h item).andThen ih

end Filling

/-! ### Encoders -/

/-- The fault of a number of items that is not the one required. -/
def countFault (required : UInt32) (found : Nat) : Option WireError :=
  if found = required.toNat then none else some (.wrongLength required found)

/-- The fault of a number of items above the limit. -/
def limitFault (limit : Option UInt32) (found : Nat) : Option WireError :=
  if (limit.getD noLimit).toNat < found then some (.tooLong (limit.getD noLimit) found)
    else none

theorem fixed_eq (required : UInt32) (found : Nat) (items : Packed) :
    fixed required found items = Output.andThen ⟨[], countFault required found⟩ items := by
  rw [fixed, countFault]
  split <;> rfl

theorem counted_eq (limit : Option UInt32) (found : Nat) (items : Packed) :
    counted limit found items =
      Output.andThen ⟨[], limitFault limit found⟩
        ((word (UInt32.ofNat found)).andThen items) := by
  rw [counted, limitFault]
  split
  · next hle => rw [if_neg (Nat.not_lt.mpr hle)]; rfl
  · next hlt => rw [if_pos (Nat.not_le.mp hlt)]; rfl

/-- Operations that write.  A text is the blob of its encoding, and a number
the words that hold it.  What follows an operation may depend on its
failure, if it had one. -/
inductive Encoder : Type 1 where
  | word (value : UInt32)
  | long (value : UInt64)
  | bool (value : Bool)
  | fixedBlob (required : UInt32) (bytes : List UInt8)
  | blob (limit : Option UInt32) (bytes : List UInt8)
  | fixedArray {α : Type} (required : UInt32) (items : List α) (item : α → Encoder)
  | array {α : Type} (limit : Option UInt32) (items : List α) (item : α → Encoder)
  | absent
  | present (item : Encoder)
  | done (failure : Option WireError)
  | andThen (first : Encoder) (next : Option WireError → Encoder)

namespace Encoder

open Filling

/-- What an encoder does with a buffer. -/
def run : Encoder → Filling
  | word value => put (wordBytes value)
  | long value => put (longBytes value)
  | bool value => put (wordBytes (if value then 1 else 0))
  | fixedBlob required bytes =>
    (check (countFault required bytes.length)).andThen (putPadded bytes)
  | blob limit bytes =>
    (check (limitFault limit bytes.length)).andThen
      ((put (wordBytes (UInt32.ofNat bytes.length))).andThen (putPadded bytes))
  | fixedArray required items item =>
    (check (countFault required items.length)).andThen (each (fun one =>
      (item one).run) items)
  | array limit items item =>
    (check (limitFault limit items.length)).andThen
      ((put (wordBytes (UInt32.ofNat items.length))).andThen (each (fun one =>
        (item one).run) items))
  | absent => put (wordBytes 0)
  | present item => (put (wordBytes 1)).andThen item.run
  | done failure => check failure
  | andThen first next => fun packer =>
    let (packer, failure) := first.run packer
    (next failure).run packer

/-- What an encoder writes. -/
def output : Encoder → Packed
  | word value => .word value
  | long value => .long value
  | bool value => .bool value
  | fixedBlob required bytes => .fixedBlob required bytes
  | blob limit bytes => .blob limit bytes
  | fixedArray required items item =>
    .fixed required items.length (.sequence (items.map fun one => (item one).output))
  | array limit items item =>
    .counted limit items.length (.sequence (items.map fun one => (item one).output))
  | absent => .bool false
  | present item => (Packed.bool true).andThen item.output
  | done failure => ⟨[], failure⟩
  | andThen first next =>
    let rest := (next first.output.failure).output
    ⟨first.output.content ++ rest.content, rest.failure⟩

/-- The fault that an encoder finds in its own number of items. -/
def refusal? : Encoder → Option WireError
  | fixedBlob required bytes => countFault required bytes.length
  | blob limit bytes => limitFault limit bytes.length
  | fixedArray required items _ => countFault required items.length
  | array limit items _ => limitFault limit items.length
  | _ => none

/-- **An encoder adds its output to any buffer.** -/
theorem adds_run (encoder : Encoder) : Adds encoder.run encoder.output := by
  induction encoder with
  | word value => exact adds_word value
  | long value => exact adds_long value
  | bool value => exact adds_word _
  | fixedBlob required bytes =>
    rw [output, Packed.fixedBlob, fixed_eq]
    exact (adds_check _).andThen (adds_putPadded bytes)
  | blob limit bytes =>
    rw [output, Packed.blob, counted_eq]
    exact (adds_check _).andThen ((adds_word _).andThen (adds_putPadded bytes))
  | fixedArray required items item ih =>
    rw [output, fixed_eq]
    exact (adds_check _).andThen (adds_each ih items)
  | array limit items item ih =>
    rw [output, counted_eq]
    exact (adds_check _).andThen ((adds_word _).andThen (adds_each ih items))
  | absent => exact adds_word 0
  | present item ih => exact (adds_word 1).andThen ih
  | done failure => exact adds_check failure
  | andThen first next ihfirst ihnext =>
    refine ⟨fun packer => ?_, ?_⟩
    · change (next (first.run packer).2).run (first.run packer).1 = _
      rw [ihfirst.run packer, (ihnext _).run, add, add, append_assoc]
      rfl
    · rw [output, length_append]
      exact Nat.dvd_add ihfirst.whole (ihnext _).whole

/-- An encoder that refuses its number of items begins with the check that
fails. -/
theorem run_of_refusal? {encoder : Encoder} {error} (h : encoder.refusal? = some error)
    (packer : Packer) : encoder.run packer = (packer, some error) := by
  cases encoder with
  | fixedBlob | blob | fixedArray | array =>
    rw [refusal?] at h
    rw [run, h]
    rfl
  | word | long | bool | absent | present | done | andThen => cases h

/-- **Writing only adds, in whole words, and takes no notice of the
buffer.**  There is a list of bytes, the number of which is a multiple of 4,
that an encoder puts behind every buffer, and every buffer meets with the
same failure, or with none.  They are those of the encoder's output, also
when the failure is that of an item inside.  A number of items that the
encoder itself refuses leaves the buffer as it was. -/
theorem run_appends (encoder : Encoder) :
    (∃ appended failure, 4 ∣ appended.length ∧ encoder.output = ⟨appended, failure⟩ ∧
      ∀ packer, encoder.run packer = (packer.add encoder.output, failure) ∧
        (packer.add encoder.output).bytes = packer.bytes ++ appended) ∧
    ∀ error, encoder.refusal? = some error →
      ∀ packer, encoder.run packer = (packer, some error) :=
  ⟨⟨_, _, encoder.adds_run.whole, rfl, fun packer => ⟨encoder.adds_run.run packer, rfl⟩⟩,
    fun _ h packer => run_of_refusal? h packer⟩

end Encoder
end Xdr.Wire
