import Xdr.Proofs.Wire.Reader

/-!
# Readers on longer inputs

What a reader does is decided by the bytes it takes.  So it does the same on
every longer input, unless it ran out of bytes; and then it says how many
were lacking, and goes on to lack the rest of them until that many are
there.

## Main Statements

* `closed_incremental` — readers built of such readers
* `Incremental.short_of_front` — where a reader takes its whole input, it
  lacks bytes on every beginning of it

## Design Notes

That a reader lacks bytes is stated together with how many, since the number
is what carries over: a reader that needs `needed` more bytes and gets fewer
needs the difference.
-/

namespace Xdr.Unpack

open List

variable {α β : Type} {reader : Unpack α} {bytes : List UInt8} {error : WireError}

/-! ### Failure -/

/-- A sequence of readers fails where the first one does, or the next one on
what the first one left. -/
theorem on_bind_eq_error {next : α → Unpack β} {rest : List UInt8} :
    (reader >>= next).on bytes = (.error error, rest) ↔
      reader.on bytes = (.error error, rest) ∨
        ∃ value middle, reader.on bytes = (.ok value, middle) ∧
          (next value).on middle = (.error error, rest) := by
  rw [on_bind]
  rcases reader.on bytes with ⟨error' | value, middle⟩
  · simp
  · simp only [Prod.mk.injEq, Except.ok.injEq, reduceCtorEq, false_and, false_or]
    constructor
    · intro h
      exact ⟨value, middle, ⟨rfl, rfl⟩, h⟩
    · rintro ⟨_, _, ⟨rfl, rfl⟩, h⟩
      exact h

/-- Bytes are lacking if there are fewer than asked for. -/
theorem split_eq_error {count lacking} :
    split count bytes = .error lacking ↔ 0 < lacking ∧ bytes.length + lacking = count := by
  fun_induction split count bytes with
  | case1 bytes =>
    refine iff_of_false (by simp) ?_
    omega
  | case2 count =>
    simp only [Except.error.injEq, length_nil]
    omega
  | case3 count byte bytes taken rest hsplit ih =>
    refine iff_of_false (by simp) fun h => ?_
    rw [length_cons] at h
    have hlacking := ih.mpr (by omega)
    rw [hsplit] at hlacking
    cases hlacking
  | case4 count byte bytes found hsplit ih =>
    have hfound : found = lacking ↔ 0 < lacking ∧ bytes.length + lacking = count := by
      simpa [hsplit] using ih
    rw [Except.error.injEq, hfound, length_cons]
    omega

theorem take_eq_error {count rest} :
    (take count).on bytes = (.error error, rest) ↔
      ∃ lacking, error = .endOfInput lacking ∧ rest = bytes ∧ 0 < lacking ∧
        bytes.length + lacking = count := by
  simp only [← split_eq_error]
  cases hsplit : split count bytes with
  | error lacking =>
    rw [on_take_of_error hsplit]
    constructor
    · intro h
      cases h
      exact ⟨lacking, rfl, rfl, rfl⟩
    · rintro ⟨_, rfl, rfl, hsame⟩
      cases hsame
      rfl
  | ok parts =>
    rw [on_take_of_ok hsplit]
    exact iff_of_false nofun fun ⟨_, _, _, h⟩ => nomatch h

/-! ### Outcomes that persist -/

/-- The outcome of the reader on some bytes says what it does on every
longer input: a success and a failure stay, and the bytes left are followed
by those that were added.  Only a reader that lacks bytes may go on, once it
has as many as it lacks. -/
structure Incremental (reader : Unpack α) : Prop where
  ok : ∀ {bytes value rest}, reader.on bytes = (.ok value, rest) →
    ∀ more, reader.on (bytes ++ more) = (.ok value, rest ++ more)
  error : ∀ {bytes error rest}, reader.on bytes = (.error error, rest) →
    (∀ needed, error ≠ .endOfInput needed) →
    ∀ more, reader.on (bytes ++ more) = (.error error, rest ++ more)
  short : ∀ {bytes needed rest}, reader.on bytes = (.error (.endOfInput needed), rest) →
    0 < needed ∧ ∀ more : List UInt8, more.length < needed →
      reader.on (bytes ++ more) = (.error (.endOfInput (needed - more.length)), rest ++ more)

theorem incremental_pure (value : α) : Incremental (pure value) where
  ok h more := by
    cases h
    rfl
  error h := nomatch h
  short h := nomatch h

/-- A failure that is not for lack of bytes. -/
theorem incremental_throw (herror : ∀ needed, error ≠ .endOfInput needed) :
    Incremental (throw error : Unpack α) where
  ok h := nomatch h
  error h _ more := by
    cases h
    rfl
  short h := by
    cases h
    exact absurd rfl (herror _)

theorem Incremental.bind {next : α → Unpack β} (hreader : Incremental reader)
    (hnext : ∀ value, Incremental (next value)) : Incremental (reader >>= next) where
  ok h more := by
    obtain ⟨value, middle, hvalue, hresult⟩ := on_bind_eq_ok.mp h
    exact on_bind_eq_ok.mpr ⟨value, middle ++ more, hreader.ok hvalue more,
      (hnext value).ok hresult more⟩
  error h hkind more := by
    rcases on_bind_eq_error.mp h with hfirst | ⟨value, middle, hvalue, hsecond⟩
    · exact on_bind_eq_error.mpr (.inl (hreader.error hfirst hkind more))
    · exact on_bind_eq_error.mpr
        (.inr ⟨value, middle ++ more, hreader.ok hvalue more,
          (hnext value).error hsecond hkind more⟩)
  short h := by
    rcases on_bind_eq_error.mp h with hfirst | ⟨value, middle, hvalue, hsecond⟩
    · obtain ⟨hpos, hmore⟩ := hreader.short hfirst
      exact ⟨hpos, fun more hlt => on_bind_eq_error.mpr (.inl (hmore more hlt))⟩
    · obtain ⟨hpos, hmore⟩ := (hnext value).short hsecond
      exact ⟨hpos, fun more hlt => on_bind_eq_error.mpr
        (.inr ⟨value, middle ++ more, hreader.ok hvalue more, hmore more hlt⟩)⟩

theorem incremental_take (count : Nat) : Incremental (take count) where
  ok h more := by
    obtain ⟨rfl, hlen⟩ := take_eq_ok.mp h
    exact take_eq_ok.mpr ⟨append_assoc .., hlen⟩
  error h hkind := by
    obtain ⟨lacking, rfl, -⟩ := take_eq_error.mp h
    exact absurd rfl (hkind lacking)
  short h := by
    obtain ⟨lacking, heq, rfl, hpos, hcount⟩ := take_eq_error.mp h
    cases heq
    refine ⟨hpos, fun more hlt => take_eq_error.mpr ⟨_, rfl, rfl, Nat.sub_pos_of_lt hlt, ?_⟩⟩
    rw [length_append]
    omega

theorem closed_incremental : Closed @Incremental :=
  ⟨incremental_pure, incremental_throw, fun _ => incremental_take _, Incremental.bind⟩

/-! ### Beginnings of an input -/

/-- **Where a reader takes its whole input, it lacks bytes on every
beginning of it**, and never more than were cut off. -/
theorem Incremental.short_of_front (h : Incremental reader)
    {front more : List UInt8} {value : α}
    (hok : reader.on (front ++ more) = (.ok value, [])) (hne : more ≠ []) :
    ∃ needed rest, reader.on front = (.error (.endOfInput needed), rest) ∧ 0 < needed ∧
      needed ≤ more.length := by
  rcases hfront : reader.on front with ⟨error | other, rest⟩
  · by_cases hkind : ∃ needed, error = .endOfInput needed
    · obtain ⟨needed, rfl⟩ := hkind
      obtain ⟨hpos, hmore⟩ := h.short hfront
      refine ⟨needed, rest, rfl, hpos, Nat.le_of_not_lt fun hlt => ?_⟩
      -- With all that was cut off the reader would still lack bytes.
      cases hok.symm.trans (hmore more hlt)
    · cases hok.symm.trans (h.error hfront (not_exists.mp hkind) more)
  · have hmore := h.ok hfront more
    rw [hok, Prod.mk.injEq] at hmore
    exact absurd (append_eq_nil_iff.mp hmore.2.symm).2 hne

end Xdr.Unpack
