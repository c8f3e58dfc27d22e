import Xdr.Proofs.Source.Characters

/-!
# The lines of a text

The bytes of a text are cut into lines at its newlines, and each line is a
text again.  So every text can be read, and what follows a newline is read
as if nothing stood before it.

## Main Statements

* `Source.readable_ofText` — every text can be read
* `Source.lines_ofText_append`, `Source.characters_ofText_append` — a text
  after whole lines
* `Source.characters_ofText_line`, `Source.characters_ofText_last` — a
  printable line in front of a text, or alone
-/

namespace Xdr

open List Text

namespace Source

/-- A byte below 128 is a character of its own. -/
theorem utf8EncodeChar_of_mem {c byte} (h : byte ∈ String.utf8EncodeChar c)
    (hlow : byte.toNat < 128) : String.utf8EncodeChar c = [byte] ∧ c.toNat = byte.toNat := by
  rw [String.utf8EncodeChar] at h ⊢
  by_cases hascii : c.val.toNat ≤ 127
  · rw [if_pos hascii, mem_singleton] at h
    rw [if_pos hascii, h, UInt8.toNat_ofNat_of_lt' (Nat.lt_of_le_of_lt hascii (by decide))]
    exact ⟨rfl, rfl⟩
  · -- All bytes of any other character are at least 128.
    exfalso
    rw [if_neg hascii] at h
    split at h
    · simp only [mem_cons, not_mem_nil, or_false] at h
      rcases h with rfl | rfl <;> simp only [UInt8.toNat_ofNat'] at hlow <;> omega
    · split at h <;> simp only [mem_cons, not_mem_nil, or_false] at h
      · rcases h with rfl | rfl | rfl <;> simp only [UInt8.toNat_ofNat'] at hlow <;> omega
      · rcases h with rfl | rfl | rfl | rfl <;>
          simp only [UInt8.toNat_ofNat'] at hlow <;> omega

theorem newline_notMem_encode {chars : List Char} (h : '\n' ∉ chars) :
    10 ∉ chars.flatMap String.utf8EncodeChar := by
  intro hmem
  obtain ⟨c, hc, hbyte⟩ := mem_flatMap.mp hmem
  obtain rfl : c = '\n' := Char.toNat_inj.mp (utf8EncodeChar_of_mem hbyte (by decide)).2
  exact h hc

/-- A carriage return that belongs to the newline is a character. -/
theorem exists_stripReturn (chars : List Char) :
    ∃ kept,
    stripReturn (chars.flatMap String.utf8EncodeChar) = kept.flatMap String.utf8EncodeChar ∧
      (kept = chars ∨ chars = kept ++ ['\r']) := by
  rw [stripReturn]
  split
  · next hlast =>
    rcases eq_nil_or_concat chars with rfl | ⟨front, c, rfl⟩
    · cases hlast
    · rw [concat_eq_append, flatMap_append, flatMap_singleton] at hlast ⊢
      have hmem : 13 ∈ String.utf8EncodeChar c := by
        rw [getLast?_append_of_ne_nil _ (by simp)] at hlast
        exact mem_of_getLast? hlast
      obtain ⟨hsingle, hchar⟩ := utf8EncodeChar_of_mem hmem (by decide)
      obtain rfl : c = '\r' := Char.toNat_inj.mp hchar
      exact ⟨front, by rw [hsingle, dropLast_concat], .inr rfl⟩
  · exact ⟨chars, rfl, .inl rfl⟩

/-- Each line of a text is a text. -/
theorem exists_of_mem_rawLines {chars : List Char} {line : List UInt8}
    (h : line ∈ rawLines (chars.flatMap String.utf8EncodeChar)) :
    ∃ kept : List Char, line = kept.flatMap String.utf8EncodeChar := by
  induction hlength : chars.length using Nat.strongRecOn generalizing chars with
  | ind length ih =>
    by_cases hmem : '\n' ∈ chars
    · obtain ⟨front, rest, rfl, hfront⟩ := eq_append_cons_of_mem hmem
      have hnewline : String.utf8EncodeChar '\n' = [10] := by decide
      rw [flatMap_append, flatMap_cons, hnewline, singleton_append,
        rawLines_line (newline_notMem_encode hfront)] at h
      rcases mem_cons.mp h with rfl | hrest
      · obtain ⟨kept, hkept, -⟩ := exists_stripReturn front
        exact ⟨kept, hkept⟩
      · refine ih rest.length ?_ hrest rfl
        rw [← hlength, length_append, length_cons]
        omega
    · by_cases hne : chars.flatMap String.utf8EncodeChar = []
      · rw [hne] at h
        cases h
      · rw [rawLines_last (newline_notMem_encode hmem) hne] at h
        exact ⟨chars, mem_singleton.mp h⟩

/-- **Every text can be read.** -/
theorem readable_ofText (name text : String) : (ofText name text).Readable := by
  intro line hline
  obtain ⟨bytes, hbytes, rfl⟩ := mem_map.mp hline
  rw [utf8_eq_flatMap] at hbytes
  obtain ⟨kept, rfl⟩ := exists_of_mem_rawLines hbytes
  have hkept : kept.flatMap String.utf8EncodeChar = utf8 (String.ofList kept) := by
    rw [utf8_eq_flatMap, String.toList_ofList]
  rw [ofUtf8?_eq_some.mpr hkept]
  rfl

/-! ### What stands before a text -/

section Front

variable {front : String} (h : front = "" ∨ ∃ body, front = body ++ "\n") (name text : String)
include h

/-- The lines of a text that follows whole lines. -/
theorem lines_ofText_append :
    (ofText name (front ++ text)).lines =
      (ofText name front).lines ++ (ofText name text).lines := by
  rcases h with rfl | ⟨body, rfl⟩
  · rw [String.empty_append]
    rfl
  · have hbytes : ∀ text, utf8 (body ++ "\n" ++ text) = utf8 body ++ 10 :: utf8 text := by
      intro text
      simp [utf8_eq_flatMap]
      rfl
    have hnone := hbytes ""
    rw [String.append_empty] at hnone
    simp only [ofText, ofBytes]
    rw [hbytes, hnone, rawLines_append, map_append]
    rfl

theorem characters_ofText_append :
    (ofText name (front ++ text)).characters =
      (ofText name front).characters ++ (ofText name text).characters := by
  simp only [characters, readable, lines_ofText_append h, filterMap_append, flatMap_append]

end Front

end Source

/-- Visible characters and spaces, each of which is one byte. -/
def Text.Printable (chars : List Char) : Prop :=
  ∀ c ∈ chars, 32 ≤ c.toNat ∧ c.toNat ≤ 126

theorem Text.printable_of_all {chars : List Char}
    (h : (chars.all fun c => decide (32 ≤ c.toNat ∧ c.toNat ≤ 126)) = true) :
    Printable chars :=
  fun c hc => of_decide_eq_true (all_eq_true.mp h c hc)

namespace Source

section Line

variable {line : String} (h : Printable line.toList)
include h

theorem newline_notMem_utf8 : 10 ∉ utf8 line := by
  rw [utf8_eq_flatMap]
  exact newline_notMem_encode fun hmem => absurd (h _ hmem).1 (by decide)

/-- A printable line with its newline. -/
theorem characters_ofText_newline (name : String) :
    (ofText name (line ++ "\n")).characters = line.toList ++ ['\n'] := by
  have hbytes : utf8 (line ++ "\n") = utf8 line ++ [10] := by
    simp [utf8_eq_flatMap]
    rfl
  have hkept : stripReturn (utf8 line) = utf8 line := by
    rw [utf8_eq_flatMap]
    obtain ⟨kept, hkept, rfl | hreturn⟩ := exists_stripReturn line.toList
    · exact hkept
    · exact absurd (h '\r' (by rw [hreturn]; simp)).1 (by decide)
  rw [characters, readable, ofText, ofBytes, hbytes, rawLines_line (newline_notMem_utf8 h),
    hkept, rawLines, map_singleton, ofUtf8?_eq_some.mpr rfl]
  simp

/-- A printable line in front of a text is the first line. -/
theorem characters_ofText_line (name name' text : String) :
    (ofText name (line ++ "\n" ++ text)).characters =
      line.toList ++ '\n' :: (ofText name' text).characters := by
  rw [characters_ofText_append (.inr ⟨line, rfl⟩), characters_ofText_newline h, append_assoc]
  rfl

/-- A printable line alone is the whole source, and has its newline all the
same. -/
theorem characters_ofText_last (name : String) (hne : line ≠ "") :
    (ofText name line).Readable ∧ (ofText name line).characters = line.toList ++ ['\n'] := by
  have hread : ofUtf8? (utf8 line) = some line := ofUtf8?_eq_some.mpr rfl
  have hbytes : utf8 line ≠ [] := by
    intro hnil
    have hempty : ofUtf8? [] = some "" := ofUtf8?_eq_some.mpr rfl
    rw [hnil, hempty] at hread
    exact hne (Option.some.inj hread).symm
  refine ⟨readable_ofText name line, ?_⟩
  rw [characters, readable, ofText, ofBytes, rawLines_last (newline_notMem_utf8 h) hbytes,
    map_singleton, hread]
  simp

end Line

end Source
end Xdr
