import Mathlib.Data.List.Basic
import Xdr.Sink

/-!
# Limited sinks

What a destination takes that has room for so many bytes, in however small
portions.

## Main Statements

* `Sink.Takes.taken_write` — bytes that are written arrive as far as the
  limit allows
* `Sink.takes_upTo` — the destinations in memory are such

## Design Notes

A limit of `none` stands for a destination that takes everything, so that
statements about a buffer are cases of those about limited destinations.
-/

namespace Xdr.Sink

open List

variable {σ : Type} {limit : Option Nat} {bytes : List UInt8}

/-- The bytes that a limit allows. -/
def within (limit : Option Nat) (bytes : List UInt8) : List UInt8 :=
  match limit with
  | some limit => bytes.take limit
  | none => bytes

/-- So many bytes are within a limit. -/
def fits (limit : Option Nat) (count : Nat) : Bool :=
  limit.all fun limit => count ≤ limit

/-- A destination takes bytes up to a limit, and then fails.  What a state
has taken is `taken`.  Of bytes that it is offered while there is room, it
takes at least one and at most all, as far as there is room.  Flushing
neither fails nor changes what was taken. -/
structure Takes (sink : Sink σ) (taken : σ → List UInt8) (limit : Option Nat) : Prop where
  takes : ∀ {state bytes}, bytes ≠ [] → fits limit ((taken state).length + 1) = true →
    ∃ next count, sink.offer bytes state = (next, some (count + 1)) ∧ count < bytes.length ∧
      fits limit ((taken state).length + (count + 1)) = true ∧
      taken next = taken state ++ bytes.take (count + 1)
  refuses : ∀ {state bytes}, bytes ≠ [] → fits limit ((taken state).length + 1) = false →
    ∃ next, sink.offer bytes state = (next, none) ∧ taken next = taken state
  flushes : ∀ state, ∃ next, sink.flush state = (next, true) ∧ taken next = taken state

/-! ### Limits -/

theorem fits_some (limit count : Nat) :
    fits (some limit) count = decide (count ≤ limit) := rfl

theorem fits_of_le {count more} (h : fits limit more = true) (hle : count ≤ more) :
    fits limit count = true := by
  cases limit with
  | none => rfl
  | some limit =>
    rw [fits_some, decide_eq_true_eq] at h ⊢
    exact Nat.le_trans hle h

theorem within_of_fits (h : fits limit bytes.length = true) : within limit bytes = bytes := by
  cases limit with
  | none => rfl
  | some limit =>
    rw [fits_some, decide_eq_true_eq] at h
    exact take_of_length_le h

/-- What is beyond a limit changes nothing. -/
theorem within_append_of_not_fits (h : fits limit bytes.length = false) (more : List UInt8) :
    within limit (bytes ++ more) = within limit bytes := by
  cases limit with
  | none => cases h
  | some limit =>
    rw [fits_some, decide_eq_false_iff_not, Nat.not_le] at h
    exact take_append_of_le_length (Nat.le_of_lt h)

/-- A destination without room for one more byte keeps what it has. -/
theorem within_append_of_full (h : fits limit bytes.length = true)
    (hfull : fits limit (bytes.length + 1) = false)
    (more : List UInt8) : within limit (bytes ++ more) = bytes := by
  cases limit with
  | none => cases hfull
  | some limit =>
    rw [fits_some, decide_eq_true_eq] at h
    rw [fits_some, decide_eq_false_iff_not] at hfull
    have hlength : limit = bytes.length := by omega
    rw [hlength]
    exact take_left

/-! ### Writing -/

/-- **Bytes that are written arrive as far as the limit allows**, and
whether all of them did is known. -/
theorem Takes.taken_write {sink : Sink σ} {taken : σ → List UInt8}
    (hsink : sink.Takes taken limit)
    (bytes : List UInt8) (state : σ) (hstate : fits limit (taken state).length = true) :
    taken (sink.write bytes state).1 = within limit (taken state ++ bytes) ∧
      (sink.write bytes state).2 = fits limit (taken state ++ bytes).length := by
  -- The induction follows the offers; what each of them leaves is offered in the next state.
  fun_induction Sink.write sink bytes state with
  | case1 state =>
    rw [append_nil, within_of_fits hstate, hstate]
    exact ⟨rfl, rfl⟩
  | case2 state first rest next count hoffer ih =>
    have hroom : fits limit ((taken state).length + 1) = true := by
      rw [← Bool.not_eq_false]
      intro hfull
      obtain ⟨next', hoffer', -⟩ := hsink.refuses (cons_ne_nil first rest) hfull
      rw [hoffer] at hoffer'
      cases hoffer'
    obtain ⟨next', count', hoffer', hcount, hfits, htaken⟩ :=
      hsink.takes (cons_ne_nil first rest) hroom
    rw [hoffer] at hoffer'
    cases hoffer'
    have hlength : (taken next).length = (taken state).length + (count + 1) := by
      rw [htaken, length_append, length_take, Nat.min_eq_left hcount]
    have hwhole : taken next ++ rest.drop count = taken state ++ first :: rest := by
      rw [htaken, append_assoc, take_succ_cons, cons_append, take_append_drop]
    rw [← hwhole]
    exact ih (by rw [hlength]; exact hfits)
  | case3 state first rest next answer hnone hoffer =>
    have hfull : fits limit ((taken state).length + 1) = false := by
      rw [← Bool.not_eq_true]
      intro hroom
      obtain ⟨next', count, hoffer', -⟩ := hsink.takes (cons_ne_nil first rest) hroom
      rw [hoffer] at hoffer'
      cases hoffer'
      exact hnone count rfl
    obtain ⟨next', hoffer', htaken⟩ := hsink.refuses (cons_ne_nil first rest) hfull
    rw [hoffer] at hoffer'
    cases hoffer'
    refine ⟨htaken.trans (within_append_of_full hstate hfull _).symm, ?_⟩
    rw [eq_comm, ← Bool.not_eq_true]
    intro hfits
    have hroom : fits limit ((taken state).length + 1) = true := fits_of_le hfits (by simp)
    rw [hfull] at hroom
    cases hroom

/-- The destinations in memory take bytes up to their limit. -/
theorem takes_upTo (limit : Option Nat) : (upTo limit).Takes reverse limit where
  takes := by
    intro state bytes hbytes hroom
    have hpos : 0 < bytes.length := length_pos_iff.mpr hbytes
    cases limit with
    | none =>
      refine ⟨bytes.reverse ++ state, bytes.length - 1, ?_, by omega, rfl, ?_⟩
      · rw [upTo, Nat.sub_add_cancel hpos]
      · rw [Nat.sub_add_cancel hpos, take_length, reverse_append, reverse_reverse]
    | some limit =>
      rw [length_reverse, fits_some, decide_eq_true_eq] at hroom
      have hpart : (bytes.take (limit - state.length)).length =
        min (limit - state.length) bytes.length :=
        length_take
      have hcount : (bytes.take (limit - state.length)).length - 1 + 1 =
          (bytes.take (limit - state.length)).length := by omega
      refine ⟨(bytes.take (limit - state.length)).reverse ++ state,
        (bytes.take (limit - state.length)).length - 1, ?_, by omega, ?_, ?_⟩
      · simp only [upTo]
        rw [if_pos (by omega), hcount]
      · rw [length_reverse, hcount, fits_some, decide_eq_true_eq]
        omega
      · rw [hcount, hpart, reverse_append, reverse_reverse, ← take_take, take_length]
  refuses := by
    intro state bytes _ hfull
    cases limit with
    | none => cases hfull
    | some limit =>
      rw [length_reverse, fits_some, decide_eq_false_iff_not] at hfull
      refine ⟨state, ?_, rfl⟩
      simp only [upTo]
      rw [if_neg (by omega)]
  flushes state := ⟨state, rfl, rfl⟩

end Xdr.Sink
