import Mathlib.Data.List.Basic
import Xdr.Json.Package
import Xdr.Proofs.Table

/-!
# Texts that spell values

Which texts spell a value, and what is asked of a package that writes and
reads them.

## Main Definitions

* `Json.spelling` — the text of a value without blanks, given how the
  characters of strings are written
* `Json.Written`, `Json.Sparing` — how a character may be written, and how
  it is written by those who escape no more than they have to
* `Json.Package.WritesCompactly` — the package writes values without blanks
  and with no more escapes than needed
* `Json.Package.ReadsUpTo` — the package reads what is spelled up to a depth
  of nesting, and nothing that is nested more deeply

## Main Statements

* `Json.readString_flatMap`, `Json.readNumber_toDigits` — strings and
  integers are read back
* `Json.Plain.readsBack` — so are plain values
* `Json.Package.writesCompactly_standard`, `Json.Package.readsUpTo_standard`
  — there is such a package

## Design Notes

`spelling` goes by recursion over the value and does not mention a writer or
a reader. It is meant for values whose numbers are integers that fit and
whose keys are distinct, the `Plain` ones; a reader is asked nothing about
other texts.
-/

namespace Xdr.Json

open List Nat

variable {value item : Json} {items : List Json} {members : List (String × Json)}
    {key : String}
  {c : Char} {rest text : List Char} {earlier : Table Json} {escape : Char → List Char}

/-! ### Spelling -/

/-- The characters that cannot stand for themselves in a string: the quote,
the backslash and the control characters. -/
def MustEscape (c : Char) : Prop :=
  c = '\x22' ∨ c = '\x5c' ∨ c.toNat < 32

instance : DecidablePred MustEscape := fun c =>
  inferInstanceAs (Decidable (c = '\x22' ∨ c = '\x5c' ∨ c.toNat < 32))

/-- The marks that stand for a character after a backslash. -/
def marks : List (Char × Char) := [
  ('\x22', '\x22'), ('\x5c', '\x5c'), ('/', '/'), ('b', '\x08'), ('f', '\x0c'), ('n', '\n'),
  ('r', '\r'), ('t', '\t')]

/-- How a character may be written in a string: as it is, by a mark after a
backslash, or by the four hexadecimal digits of its number. -/
inductive Written : Char → List Char → Prop where
  | plain {c : Char} (h : ¬ MustEscape c) : Written c [c]
  | mark {mark c} (h : (mark, c) ∈ marks) : Written c ['\x5c', mark]
  | unit {c d₁ d₂ d₃ d₄ : Char} (h : Numeral.readNat 16 [d₁, d₂, d₃, d₄] = some c.toNat) :
      Written c ['\x5c', 'u', d₁, d₂, d₃, d₄]

/-- How a character is written if only those characters are escaped that
have to be. -/
def Sparing (c : Char) (text : List Char) : Prop :=
  Written c text ∧ (¬ MustEscape c → text = [c])

/-- A string between quotes, with its characters written in the given way. -/
def quoted (escape : Char → List Char) (s : String) : List Char :=
  '\x22' :: (s.toList.flatMap escape ++ ['\x22'])

mutual

/-- The text of a value without blanks, with the characters of strings
written in the given way. There is none for a number that is not an integer.
-/
def spelling (escape : Char → List Char) : Json → List Char
  | .null => "null".toList
  | .bool value => (if value then "true" else "false").toList
  | .number (.int value) => (toString value).toList
  | .number (.float _) => []
  | .string s => quoted escape s
  | .array items => '[' :: ((spellingItems escape items).tail ++ [']'])
  | .object members => '\x7b' :: ((spellingMembers escape members).tail ++ ['\x7d'])

/-- The items of an array, each after a comma, of which the array leaves out
the first. -/
def spellingItems (escape : Char → List Char) : List Json → List Char
  | [] => []
  | item :: items => ',' :: (spelling escape item ++ spellingItems escape items)

/-- The members of an object, each after a comma, of which the object leaves
out the first. -/
def spellingMembers (escape : Char → List Char) : List (String × Json) → List Char
  | [] => []
  | (key, value) :: members =>
    ',' ::
      (quoted escape key ++ ':' :: (spelling escape value ++ spellingMembers escape members))

end

/-- A value of integers that fit and objects with distinct keys. -/
inductive Plain : Json → Prop where
  | null : Plain .null
  | bool (value : Bool) : Plain (.bool value)
  | int (value : Int) (hleast : -0x8000000000000000 ≤ value) (hgreatest :
    value ≤ 0xffffffffffffffff) : Plain (.int value)
  | string (value : String) : Plain (.string value)
  | array {items : List Json} (hitems : ∀ item ∈ items, Plain item) : Plain (.array items)
  | object {members : List (String × Json)} (hnodup : (members.map Prod.fst).Nodup)
      (hmembers : ∀ member ∈ members, Plain member.2) : Plain (.object members)

/-! ### Packages -/

namespace Package

/-- The package writes plain values without blanks, and escapes quotes,
backslashes and control characters only. -/
def WritesCompactly (package : Package) : Prop :=
  ∀ value, Plain value → ∃ escape, (∀ c, Sparing c (escape c)) ∧
    package.write value = some (String.ofList (spelling escape value))

/-- The package reads a plain value from its text, however the characters of
strings are written, if no more than `limit` containers are nested in it,
and fails otherwise. -/
def ReadsUpTo (package : Package) (limit : Nat) : Prop :=
  ∀ value, Plain value → ∀ escape, (∀ c, Written c (escape c)) →
    package.read (String.ofList (spelling escape value)) =
      if value.depth ≤ limit then some value else none

/-- **Reading what was written.** A package that writes compactly and reads
up to a limit gives a plain value back, unless it is nested more deeply:
then its text cannot be read. -/
theorem read_write {package : Package} {limit : Nat} (hwrites : package.WritesCompactly)
    (hreads : package.ReadsUpTo limit) (h : Plain value) :
    ∃ text, package.write value = some text ∧
      package.read text = if value.depth ≤ limit then some value else none := by
  obtain ⟨escape, hsparing, hwrite⟩ := hwrites value h
  exact ⟨_, hwrite, hreads value h escape fun c => (hsparing c).1⟩

end Package

/-! ### Reading strings -/

/-- A character that needs no escape is read as it is. -/
theorem readString_plain (hquote : c ≠ '\x22') (hslash : c ≠ '\x5c')
    (hcontrol : ¬ c.toNat < 32) (cs : List Char) :
    readString (c :: cs) = (readString cs).map fun read => (c :: read.1, read.2) := by
  rw [readString.eq_def]
  split
  · next h => cases h
  · next h => exact absurd (cons.inj h).1 hquote
  · next h => exact absurd (cons.inj h).1 hslash
  · next h => exact absurd (cons.inj h).1 hslash
  · next h =>
    obtain ⟨rfl, rfl⟩ := cons.inj h
    rw [if_neg (by simpa [hslash] using hcontrol)]

/-- A character is read back from a mark of its own. -/
theorem readString_mark {mark} (hmark : unescape mark = some c) (hne : mark ≠ 'u')
    (cs : List Char) :
    readString ('\x5c' :: mark :: cs) = (readString cs).map fun read =>
      (c :: read.1, read.2) := by
  rw [readString]
  · simp only [hmark]
  · intro a b c d rest h
    exact absurd h hne

/-- A character is read back from whatever it is written as. -/
theorem readString_written (h : Written c text) (cs : List Char) :
    readString (text ++ cs) = (readString cs).map fun read => (c :: read.1, read.2) := by
  cases h with
  | plain h =>
    rw [MustEscape, not_or, not_or] at h
    exact readString_plain h.1 h.2.1 h.2.2 cs
  | mark h =>
    simp only [marks, mem_cons, not_mem_nil, or_false, Prod.mk.injEq] at h
    rcases h with ⟨rfl, rfl⟩ | ⟨rfl, rfl⟩ | ⟨rfl, rfl⟩ | ⟨rfl, rfl⟩ |
      ⟨rfl, rfl⟩ | ⟨rfl, rfl⟩ |
      ⟨rfl, rfl⟩ | ⟨rfl, rfl⟩ <;> exact readString_mark rfl (by decide) cs
  | unit h =>
    -- A character has the number of no surrogate.
    have hvalid : c.toNat < 0xd800 ∨ 0xdfff < c.toNat := c.valid.imp_right And.left
    have hlow : ¬ (0xdc00 ≤ c.toNat ∧ c.toNat ≤ 0xdfff) := by omega
    have hhigh : ¬ (0xd800 ≤ c.toNat ∧ c.toNat ≤ 0xdbff) := by omega
    simp only [cons_append, nil_append, readString, readHex, h, if_neg hlow, if_neg hhigh,
      Char.ofNat_toNat]

/-- **A string is read back from its text**, up to the closing quote. -/
theorem readString_flatMap (hescape : ∀ c, Written c (escape c)) (cs rest : List Char) :
    readString (cs.flatMap escape ++ '\x22' :: rest) = some (cs, rest) := by
  induction cs with
  | nil => rfl
  | cons c cs ih =>
    rw [flatMap_cons, append_assoc, readString_written (hescape c), ih, Option.map_some]

/-! ### Reading numbers -/

theorem isDecimalDigit_digitChar : ∀ n < 10, isDecimalDigit n.digitChar = true := by
  decide

theorem toNat_digitChar : ∀ n < 10, n.digitChar.toNat - '0'.toNat = n := by
  decide

/-- A text that does not go on with a number. -/
def Ends (rest : List Char) : Prop :=
  ∀ c ∈ rest.head?, isDecimalDigit c = false ∧ c ≠ '.' ∧ c ≠ 'e' ∧ c ≠ 'E'

theorem ends_nil : Ends [] := by
  intro c hc
  cases hc

theorem ends_cons (h : isDecimalDigit c = false ∧ c ≠ '.' ∧ c ≠ 'e' ∧ c ≠ 'E')
    (rest : List Char) : Ends (c :: rest) := by
  intro d hd
  cases hd
  exact h

theorem Ends.head?_any (h : Ends rest) : rest.head?.any isDecimalDigit = false := by
  cases rest with
  | nil => rfl
  | cons c cs => exact (h c rfl).1

theorem Ends.takeWhile_eq_nil (h : Ends rest) : rest.takeWhile isDecimalDigit = [] := by
  cases rest with
  | nil => rfl
  | cons c cs => rw [takeWhile_cons, if_neg (by simp [(h c rfl).1])]

theorem Ends.takeDigits_eq (h : Ends rest) (limit significand : Nat) :
    takeDigits limit significand rest = (significand, 0, rest) := by
  cases rest with
  | nil => rfl
  | cons c cs => rw [takeDigits, if_neg (by simp [(h c rfl).1])]

/-- One digit, as long as the significand is small enough. -/
theorem takeDigits_digit {limit significand digit} (hdigit : digit < 10)
    (hlimit : significand * 10 + digit ≤ limit) (cs : List Char) :
    takeDigits limit significand (digit.digitChar :: cs) =
      ((takeDigits limit (significand * 10 + digit) cs).1,
        (takeDigits limit (significand * 10 + digit) cs).2.1 + 1,
        (takeDigits limit (significand * 10 + digit) cs).2.2) := by
  rw [takeDigits, if_pos (isDecimalDigit_digitChar digit hdigit),
    toNat_digitChar digit hdigit, if_pos hlimit]

/-- The digits of a number are taken as a whole, and the reader goes on
after them. -/
theorem takeDigits_toDigits {limit n} (hn : n ≤ limit) (cs : List Char) :
    ∃ count, takeDigits limit 0 (toDigits 10 n ++ cs) =
      ((takeDigits limit n cs).1, (takeDigits limit n cs).2.1 + count,
        (takeDigits limit n cs).2.2) := by
  induction n using Nat.strongRecOn generalizing cs with
  | ind n ih =>
    by_cases hlt : n < 10
    · have hdigit := takeDigits_digit hlt (by omega : 0 * 10 + n ≤ limit) cs
      rw [Nat.zero_mul, Nat.zero_add] at hdigit
      exact ⟨1, by rw [toDigits_of_lt_base hlt, singleton_append, hdigit]⟩
    · have hsplit : n / 10 * 10 + n % 10 = n := by omega
      obtain ⟨count, hfront⟩ := ih (n / 10) (by omega) (by omega) ((n % 10).digitChar :: cs)
      rw [takeDigits_digit (by omega) (by omega), hsplit] at hfront
      refine ⟨1 + count, ?_⟩
      rw [toDigits_of_base_le (by omega) (by omega), append_assoc, singleton_append, hfront,
        Nat.add_assoc]

/-- Digits start with a digit, and with zero only if the number is zero. -/
theorem exists_toDigits_eq_cons (n : Nat) :
    ∃ c cs, toDigits 10 n = c :: cs ∧ isDecimalDigit c = true ∧ (c = '0' →
      n = 0 ∧ cs = []) := by
  induction n using Nat.strongRecOn with
  | ind n ih =>
    by_cases hlt : n < 10
    · refine ⟨n.digitChar, [], toDigits_of_lt_base hlt, isDecimalDigit_digitChar n hlt,
        fun hzero => ⟨?_, rfl⟩⟩
      rw [← toNat_digitChar n hlt, hzero, Nat.sub_self]
    · obtain ⟨c, cs, hfront, hdigit, hzero⟩ := ih (n / 10) (by omega)
      refine ⟨c, cs ++ [(n % 10).digitChar], ?_, hdigit, fun hc => ?_⟩
      · rw [toDigits_of_base_le (by omega) (by omega), hfront, cons_append]
      · have := (hzero hc).1
        omega

/-- **An integer is read back from its digits.** -/
theorem readNumber_toDigits (negative : Bool) {n : Nat} (hrest : Ends rest)
    (hn : n ≤ maxSignificand) (hnegative : negative = true → n ≠ 0 ∧ n ≤ 0x8000000000000000) :
    readNumber negative (toDigits 10 n ++ rest) = some (.int (if negative then -(n : Int)
      else n), rest) := by
  obtain ⟨c, cs, hdigits, hdigit, hzero⟩ := exists_toDigits_eq_cons n
  obtain ⟨count, htake⟩ := takeDigits_toDigits hn rest
  rw [hrest.takeDigits_eq] at htake
  have hhead : (toDigits 10 n ++ rest).head?.any isDecimalDigit = true := by
    simp [hdigits, hdigit]
  have hlead : ((toDigits 10 n ++ rest).head? == some '0' &&
      (toDigits 10 n ++ rest).tail.head?.any isDecimalDigit) = false := by
    by_cases hc : c = '0'
    · rw [hdigits, (hzero hc).2, singleton_append, tail_cons, hrest.head?_any, Bool.and_false]
    · simp [hdigits, hc]
  rw [readNumber, hhead, hlead]
  simp only [Bool.not_true, Bool.false_eq_true, if_false, htake, hrest.takeWhile_eq_nil,
    length_nil, drop_zero]
  split
  · exact absurd rfl (hrest _ rfl).2.1
  · exact absurd rfl (hrest _ rfl).2.2.1
  · exact absurd rfl (hrest _ rfl).2.2.2
  · cases negative with
    | false => rfl
    | true =>
      obtain ⟨hpositive, hleast⟩ := hnegative rfl
      have hfits : ¬ (n = 0 ∨ 0x8000000000000000 < n) := by omega
      simp [hfits]

/-! ### Reading values -/

/-- A text that starts with a value, and neither with a gap nor with the end
of an array. -/
def Opens (text : List Char) : Prop :=
  ∃ c cs, text = c :: cs ∧ isGap c = false ∧ c ≠ ']'

theorem Opens.append (h : Opens text) (rest : List Char) : Opens (text ++ rest) := by
  obtain ⟨c, cs, rfl, hgap, hend⟩ := h
  exact ⟨c, cs ++ rest, rfl, hgap, hend⟩

theorem Opens.skipGap_eq (h : Opens text) : skipGap text = text := by
  obtain ⟨c, cs, rfl, hgap, -⟩ := h
  rw [skipGap, dropWhile_cons_of_neg (by simp [hgap])]

theorem opens_toDigits (n : Nat) : Opens (toDigits 10 n) := by
  obtain ⟨c, cs, hdigits, hdigit, -⟩ := exists_toDigits_eq_cons n
  refine ⟨c, cs, hdigits, ?_, ?_⟩
  · rw [Bool.eq_false_iff]
    intro hgap
    have hcases : c = ' ' ∨ c = '\n' ∨ c = '\t' ∨ c = '\r' := by
      simpa [isGap, or_assoc] using hgap
    rcases hcases with rfl | rfl | rfl | rfl <;> cases hdigit
  · rintro rfl
    cases hdigit

/-- The text of an integer. -/
theorem toList_toString (value : Int) : (toString value).toList = intText value := by
  cases value with
  | ofNat n =>
    have hnat : ¬ (Int.ofNat n < 0) := by simp
    rw [intText, if_neg hnat]
    exact String.toList_ofList
  | negSucc n =>
    rw [intText, if_pos (Int.negSucc_lt_zero n)]
    exact (String.toList_append ..).trans (congrArg ('-' :: ·) String.toList_ofList)

theorem Plain.opens (h : Plain value) : Opens (spelling escape value) := by
  cases h with
  | null | string _ | array _ | object _ _ => exact ⟨_, _, rfl, rfl, by decide⟩
  | bool value => cases value <;> exact ⟨_, _, rfl, rfl, by decide⟩
  | int value _ _ =>
    rw [Json.int, spelling, toList_toString, intText]
    split
    · exact ⟨_, _, rfl, rfl, by decide⟩
    · exact opens_toDigits _

theorem opens_quoted (s : String) : Opens (quoted escape s) :=
  ⟨_, _, rfl, rfl, by decide⟩

/-- A value is read back from its text, if it is not nested more deeply than
is left. -/
structure ReadsBack (escape : Char → List Char) (value : Json) : Prop where
  opens : Opens (spelling escape value)
  reads : ∀ steps depth rest, Ends rest → 2 * (spelling escape value).length ≤ steps →
    readValue steps depth (spelling escape value ++ rest) =
      if value.depth ≤ depth then some (value, rest) else none

section Containers

variable {steps depth : Nat}

/-- The last item of an array. -/
theorem readItems_last (h : ReadsBack escape item)
    (hsteps : 2 * (spelling escape item).length ≤ steps) :
    readItems (steps + 1) depth (spelling escape item ++ ']' :: rest) =
      if item.depth ≤ depth then some ([item], rest) else none := by
  rw [readItems, h.reads steps depth _ (ends_cons (by decide) rest) hsteps]
  by_cases hdepth : item.depth ≤ depth <;> simp only [hdepth, if_true, if_false]
  rfl

/-- An item with others behind it. -/
theorem readItems_more (h : ReadsBack escape item)
    (hsteps : 2 * (spelling escape item).length ≤ steps) (hrest : Opens rest) :
    readItems (steps + 1) depth (spelling escape item ++ ',' :: rest) =
      if item.depth ≤ depth then
        (readItems steps depth rest).map fun read => (item :: read.1, read.2)
      else none := by
  have hcomma : skipGap (',' :: rest) = ',' :: rest := rfl
  rw [readItems, h.reads steps depth _ (ends_cons (by decide) rest) hsteps]
  by_cases hdepth : item.depth ≤ depth <;>
    simp only [hdepth, if_true, if_false, hcomma, hrest.skipGap_eq]

/-- The items of an array are read back from their texts, with commas
between them. -/
theorem readItems_spelled (hitem : ReadsBack escape item)
    (hitems : ∀ other ∈ items, ReadsBack escape other)
    (hsteps : 2 * (spelling escape item ++ spellingItems escape items).length ≤ steps) :
    readItems (steps + 1) depth
      (spelling escape item ++ (spellingItems escape items ++ ']' :: rest)) =
      if depthItems (item :: items) ≤ depth then some (item :: items, rest) else none := by
  induction items generalizing item steps with
  | nil =>
    rw [depthItems, depthItems, Nat.max_zero]
    rw [spellingItems, append_nil] at hsteps
    exact readItems_last hitem hsteps
  | cons next items ih =>
    rw [forall_mem_cons] at hitems
    simp only [spellingItems, length_append, length_cons] at hsteps
    obtain ⟨steps, rfl⟩ : ∃ left, steps = left + 1 := ⟨steps - 1, by omega⟩
    rw [depthItems, spellingItems, cons_append, append_assoc,
      readItems_more hitem (by omega) (hitems.1.opens.append _),
      ih hitems.1 hitems.2 (by rw [length_append]; omega)]
    simp only [Nat.max_le, ite_and]
    split
    · split <;> rfl
    · rfl

section Members

variable (hescape : ∀ c, Written c (escape c))
include hescape

/-- The last member of an object. -/
theorem readMembers_last (h : ReadsBack escape value)
    (hsteps : 2 * (spelling escape value).length ≤ steps) :
    readMembers (steps + 1) depth earlier
        (quoted escape key ++ ':' :: (spelling escape value ++ '\x7d' :: rest)) =
      if value.depth ≤ depth then some (earlier.insert key value, rest) else none := by
  have hcolon : ∀ text, skipGap (':' :: text) = ':' :: text := fun _ => rfl
  have hclose : skipGap ('\x7d' :: rest) = '\x7d' :: rest := rfl
  have hvalue := h.reads steps depth ('\x7d' :: rest) (ends_cons (by decide) rest) hsteps
  rw [quoted, cons_append, append_assoc, singleton_append, readMembers]
  simp only [readString_flatMap hescape, hcolon, (h.opens.append _).skipGap_eq, hvalue]
  by_cases hdepth : value.depth ≤ depth <;>
    simp only [hdepth, if_true, if_false, hclose, String.ofList_toList]

/-- A member with others behind it. -/
theorem readMembers_more (h : ReadsBack escape value)
    (hsteps : 2 * (spelling escape value).length ≤ steps) (hrest : Opens rest) :
    readMembers (steps + 1) depth earlier
        (quoted escape key ++ ':' :: (spelling escape value ++ ',' :: rest)) =
      if value.depth ≤ depth then readMembers steps depth (earlier.insert key value) rest
      else none := by
  have hcolon : ∀ text, skipGap (':' :: text) = ':' :: text := fun _ => rfl
  have hcomma : skipGap (',' :: rest) = ',' :: rest := rfl
  have hvalue := h.reads steps depth (',' :: rest) (ends_cons (by decide) rest) hsteps
  rw [quoted, cons_append, append_assoc, singleton_append, readMembers]
  simp only [readString_flatMap hescape, hcolon, (h.opens.append _).skipGap_eq, hvalue]
  by_cases hdepth : value.depth ≤ depth <;>
    simp only [hdepth, if_true, if_false, hcomma, hrest.skipGap_eq, String.ofList_toList]

/-- The members of an object are read back from their texts, with commas
between them. -/
theorem readMembers_spelled (hvalue : ReadsBack escape value)
    (hmembers : ∀ member ∈ members, ReadsBack escape member.2)
    (hnodup : ((earlier ++ (key, value) :: members).map Prod.fst).Nodup)
    (hsteps : 2 * (spelling escape value ++ spellingMembers escape members).length ≤ steps) :
    readMembers (steps + 1) depth earlier
        (quoted escape key ++
          ':' ::
            (spelling escape value ++ (spellingMembers escape members ++ '\x7d' :: rest))) =
      if depthMembers ((key, value) :: members) ≤ depth then
        some (earlier ++ (key, value) :: members, rest)
      else none := by
  induction members generalizing key value earlier steps with
  | nil =>
    rw [spellingMembers, append_nil] at hsteps
    rw [depthMembers, depthMembers, Nat.max_zero, spellingMembers, nil_append,
      readMembers_last hescape hvalue hsteps,
      Table.insert_of_notMem (Table.notMem_of_nodup_keys hnodup)]
  | cons next members ih =>
    obtain ⟨label, content⟩ := next
    obtain ⟨hcontent, hmembers⟩ : ReadsBack escape content ∧ ∀ member ∈ members, _ :=
      forall_mem_cons.mp hmembers
    simp only [spellingMembers, length_append, length_cons] at hsteps
    obtain ⟨steps, rfl⟩ : ∃ left, steps = left + 1 := ⟨steps - 1, by omega⟩
    have hlater : readMembers (steps + 1) depth (earlier ++ [(key, value)]) _ = _ :=
      ih hcontent hmembers (by simpa using hnodup) (by rw [length_append]; omega)
    rw [append_assoc, singleton_append] at hlater
    rw [depthMembers, spellingMembers, cons_append, append_assoc, cons_append, append_assoc,
      readMembers_more hescape hvalue (by omega) ((opens_quoted label).append _),
      Table.insert_of_notMem (Table.notMem_of_nodup_keys hnodup), hlater]
    simp only [Nat.max_le, ite_and]

end Members

end Containers

theorem readValue_intText {value} (hleast : -0x8000000000000000 ≤ value)
    (hgreatest : value ≤ 0xffffffffffffffff) (steps depth : Nat) (hrest : Ends rest) :
    readValue (steps + 1) depth (intText value ++ rest) = some (.int value, rest) := by
  rw [intText]
  split
  · next hneg =>
    have hnumber := readNumber_toDigits true (n := value.natAbs) hrest
      (by rw [maxSignificand]; omega) (by omega)
    have hvalue : -(value.natAbs : Int) = value := by omega
    rw [cons_append, readValue, if_neg (by decide), if_pos (by decide), hnumber,
      if_pos rfl, hvalue]
    rfl
  · next hneg =>
    have hnumber := readNumber_toDigits false (n := value.natAbs) hrest
      (by rw [maxSignificand]; omega) (by simp)
    have hvalue : (value.natAbs : Int) = value := by omega
    obtain ⟨c, cs, hdigits, hdigit, -⟩ := exists_toDigits_eq_cons value.natAbs
    have hquote : ¬ (c == '\x22') = true := by
      rw [beq_iff_eq]
      rintro rfl
      cases hdigit
    have hminus : ¬ (c == '-') = true := by
      rw [beq_iff_eq]
      rintro rfl
      cases hdigit
    rw [hdigits, cons_append] at hnumber ⊢
    rw [readValue, if_neg hquote, if_neg hminus, if_pos hdigit, hnumber,
      if_neg (by decide), hvalue]
    rfl

/-- A text that opens a value is not empty, so there is a step to begin
with. -/
theorem readsBack_of_succ (hopens : Opens (spelling escape value))
    (h : ∀ steps depth rest, Ends rest → 2 * (spelling escape value).length ≤ steps + 1 →
      readValue (steps + 1) depth (spelling escape value ++ rest) =
        if value.depth ≤ depth then some (value, rest) else none) :
    ReadsBack escape value := by
  refine ⟨hopens, fun steps depth rest hrest hsteps => ?_⟩
  obtain ⟨c, cs, hcons, -⟩ := hopens
  have hlength := congrArg length hcons
  rw [length_cons] at hlength
  obtain ⟨steps, rfl⟩ : ∃ left, steps = left + 1 := ⟨steps - 1, by omega⟩
  exact h steps depth rest hrest hsteps

/-- One container more may be opened than is left inside it. -/
theorem map_within {α β : Type} (f : α → β) (content : α) (inner depth : Nat) :
    (if depth = 0 then none else (if inner ≤ depth - 1 then some content else none).map f) =
      if inner + 1 ≤ depth then some (f content) else none := by
  cases depth with
  | zero => rfl
  | succ depth =>
    rw [if_neg (Nat.succ_ne_zero depth), Nat.add_sub_cancel]
    simp only [Nat.add_le_add_iff_right]
    split <;> rfl

theorem readValue_array {steps depth : Nat} (h : Opens text) :
    readValue (steps + 1) depth ('[' :: text) = if depth = 0 then none
      else (readItems steps (depth - 1) text).map fun read => (.array read.1, read.2) := by
  have hmark : isDecimalDigit '[' = false := rfl
  rw [readValue]
  simp only [Char.reduceBEq, Bool.false_eq_true, if_false, hmark, if_true, h.skipGap_eq]
  obtain ⟨c, cs, rfl, -, hend⟩ := h
  split
  · rfl
  · split
    · next heq => exact absurd (cons.inj heq).1 hend
    · rfl

theorem readValue_object (steps depth : Nat) (key : String) (text : List Char) :
    readValue (steps + 1) depth ('\x7b' :: (quoted escape key ++ text)) = if depth = 0 then
      none
      else (readMembers steps (depth - 1) [] (quoted escape key ++ text)).map
        fun read => (.object read.1, read.2) := by
  rfl

/-- **Arrays** of values that read back do. -/
theorem readsBack_array (hitems : ∀ item ∈ items, ReadsBack escape item) :
    ReadsBack escape (.array items) := by
  refine readsBack_of_succ ⟨_, _, rfl, rfl, by decide⟩ fun steps depth rest _ hsteps => ?_
  cases items with
  | nil => cases depth <;> rfl
  | cons item items =>
    rw [forall_mem_cons] at hitems
    simp only [spelling, spellingItems, tail_cons, length_append, length_cons,
      length_nil] at hsteps
    obtain ⟨steps, rfl⟩ : ∃ left, steps = left + 1 := ⟨steps - 1, by omega⟩
    simp only [spelling, spellingItems, tail_cons, cons_append, append_assoc, nil_append]
    rw [readValue_array (hitems.1.opens.append _),
      readItems_spelled hitems.1 hitems.2 (by rw [length_append]; omega),
      map_within, Json.depth]

/-- **Objects** do if no key is used twice. -/
theorem readsBack_object (hescape : ∀ c, Written c (escape c))
    (hnodup : (members.map Prod.fst).Nodup)
    (hmembers : ∀ member ∈ members, ReadsBack escape member.2) :
    ReadsBack escape (.object members) := by
  refine readsBack_of_succ ⟨_, _, rfl, rfl, by decide⟩ fun steps depth rest _ hsteps => ?_
  cases members with
  | nil => cases depth <;> rfl
  | cons member members =>
    obtain ⟨key, value⟩ := member
    obtain ⟨hvalue, hmembers⟩ : ReadsBack escape value ∧ ∀ member ∈ members, _ :=
      forall_mem_cons.mp hmembers
    simp only [spelling, spellingMembers, tail_cons, length_append, length_cons,
      length_nil] at hsteps
    obtain ⟨steps, rfl⟩ : ∃ left, steps = left + 1 := ⟨steps - 1, by omega⟩
    simp only [spelling, spellingMembers, tail_cons, cons_append, append_assoc, nil_append]
    rw [readValue_object, readMembers_spelled hescape hvalue hmembers hnodup
      (by rw [length_append]; omega), map_within, Json.depth, nil_append]

/-- **A plain value is read back from its text**, if it is not nested more
deeply than is left. -/
theorem Plain.readsBack (hescape : ∀ c, Written c (escape c)) (h : Plain value) :
    ReadsBack escape value := by
  induction h with
  | null => exact readsBack_of_succ Plain.null.opens fun _ _ _ _ _ => rfl
  | bool value =>
    exact readsBack_of_succ (Plain.bool value).opens fun _ _ _ _ _ => by cases value <;> rfl
  | int value hleast hgreatest =>
    refine readsBack_of_succ (Plain.int value hleast hgreatest).opens
      fun steps depth rest hrest _ => ?_
    rw [Json.int, spelling, toList_toString,
      readValue_intText hleast hgreatest steps depth hrest]
    exact (if_pos (zero_le depth)).symm
  | string value =>
    refine readsBack_of_succ (Plain.string value).opens fun steps depth rest _ _ => ?_
    rw [spelling, quoted, cons_append, append_assoc, singleton_append, readValue,
      if_pos (by decide), readString_flatMap hescape]
    simp only [Option.map_some, String.ofList_toList]
    exact (if_pos (zero_le depth)).symm
  | array _ ih => exact readsBack_array ih
  | object hnodup _ ih => exact readsBack_object hescape hnodup ih

/-- **A plain value is read from its text**, unless it is nested too deeply.
-/
theorem Package.readsUpTo_standard : Package.standard.ReadsUpTo 127 := by
  intro value hplain escape hescape
  obtain ⟨hopens, hreads⟩ := hplain.readsBack hescape
  have hread := hreads _ nestingLimit [] ends_nil (le_succ _)
  rw [append_nil] at hread
  show parse _ = if value.depth ≤ nestingLimit then some value else none
  rw [parse, String.toList_ofList]
  simp only [hopens.skipGap_eq, hread]
  by_cases hdepth : value.depth ≤ nestingLimit
  · rw [if_pos hdepth, if_pos hdepth]
    rfl
  · rw [if_neg hdepth, if_neg hdepth]

/-! ### Writing -/

theorem readNat_hexDigit :
    ∀ n < 32, Numeral.readNat 16 ['0', '0', hexDigit (n / 16),
      hexDigit (n % 16)] = some n := by
  decide

/-- A character is escaped only if it has to be, and so that it can be read.
-/
theorem sparing_escapeChar (c : Char) : Sparing c (escapeChar c) := by
  by_cases hquote : c = '\x22'
  · subst hquote
    exact ⟨.mark (by decide), fun h => absurd (.inl rfl) h⟩
  by_cases hslash : c = '\x5c'
  · subst hslash
    exact ⟨.mark (by decide), fun h => absurd (.inr (.inl rfl)) h⟩
  by_cases hshort : c = '\x08' ∨ c = '\t' ∨ c = '\n' ∨ c = '\x0c' ∨ c = '\r'
  · rcases hshort with rfl | rfl | rfl | rfl | rfl <;>
      exact ⟨.mark (by decide), fun h => absurd (.inr (.inr (by decide))) h⟩
  obtain ⟨hback, htab, hline, hfeed, hreturn⟩ :
      c ≠ '\x08' ∧ c ≠ '\t' ∧ c ≠ '\n' ∧ c ≠ '\x0c' ∧ c ≠ '\r' := by
    simpa only [not_or] using hshort
  by_cases hcontrol : c.toNat < 32
  · have hescape : escapeChar c =
        ['\x5c', 'u', '0', '0', hexDigit (c.toNat / 16), hexDigit (c.toNat % 16)] := by
      simp [escapeChar, hquote, hslash, hback, htab, hline, hfeed, hreturn, hcontrol]
    rw [hescape]
    exact ⟨.unit (readNat_hexDigit c.toNat hcontrol),
      fun h => absurd (.inr (.inr hcontrol)) h⟩
  · have hescape : escapeChar c = [c] := by
      simp [escapeChar, hquote, hslash, hback, htab, hline, hfeed, hreturn, hcontrol]
    have hplain : ¬ MustEscape c := by simp [MustEscape, hquote, hslash, hcontrol]
    rw [hescape]
    exact ⟨.plain hplain, fun _ => rfl⟩

theorem compactItems_eq (h : ∀ item ∈ items, compactText item = spelling escapeChar item) :
    compactItems items = spellingItems escapeChar items := by
  induction items with
  | nil => rfl
  | cons item items ih =>
    rw [forall_mem_cons] at h
    simp [compactItems, spellingItems, h.1, ih h.2]

theorem compactMembers_eq
    (h : ∀ member ∈ members, compactText member.2 = spelling escapeChar member.2) :
    compactMembers members = spellingMembers escapeChar members := by
  induction members with
  | nil => rfl
  | cons member members ih =>
    rw [forall_mem_cons] at h
    simp [compactMembers, spellingMembers, stringText, quoted, h.1, ih h.2]

/-- **The text of a plain value spells it**, with no more escapes than
needed. -/
theorem Plain.compactText_eq (h : Plain value) :
    compactText value = spelling escapeChar value := by
  induction h with
  | null | string _ => rfl
  | bool value => cases value <;> rfl
  | int value _ _ => exact (toList_toString value).symm
  | @array items _ ih =>
    cases items with
    | nil => rfl
    | cons item items =>
      rw [forall_mem_cons] at ih
      simp [compactText, spelling, spellingItems, ih.1, compactItems_eq ih.2]
  | @object members _ _ ih =>
    cases members with
    | nil => rfl
    | cons member members =>
      rw [forall_mem_cons] at ih
      simp [compactText, spelling, spellingMembers, stringText, quoted, ih.1,
        compactMembers_eq ih.2]

theorem Package.writesCompactly_standard : Package.standard.WritesCompactly := by
  intro value h
  exact ⟨escapeChar, sparing_escapeChar, congrArg (some <| String.ofList ·) h.compactText_eq⟩

end Xdr.Json
