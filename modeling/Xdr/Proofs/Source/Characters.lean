import Mathlib.Data.List.Basic
import Mathlib.Data.List.Induction
import Xdr.Proofs.Wire.Reader
import Xdr.Source.Basic

/-!
# The characters of a source

Bytes are cut into lines at their newlines.  A carriage return right before
a newline belongs to the newline, any other is a byte of its line; what
follows the last newline is a line if it is not empty.  A source whose lines
can all be read is a sequence of characters, the first of which stands at
the first position.  What the stream of items says beside the characters
follows from them: each item carries the position after its character, and
the next character stands there.

## Main Statements

* `Source.byLines` — induction that takes off one line at a time
* `Source.rawLines_line`, `Source.rawLines_last` — the first line, and the
  last
* `Source.rawLines_eq_splitLines` — the lines of bytes are the pieces
  between newlines
* `Source.rawLines_append` — bytes that end with a line, followed by others
* `Source.newline_notMem_of_mem_lines` — no line contains the newline that
  ends it
* `Source.items_eq_itemsAt` — the items of a readable source are those of
  its characters
* `Source.exists_lines_before` — the lines before the first unreadable one
  are those of some first bytes
-/

namespace Xdr

open List Nat

namespace Source

variable {line : List UInt8}

/-- Bytes are a line without a newline, or a line, its newline and others. -/
theorem byLines {motive : List UInt8 → Prop} (last : ∀ line, 10 ∉ line → motive line)
    (line : ∀ line rest, 10 ∉ line → motive rest → motive (line ++ 10 :: rest))
    (bytes : List UInt8) : motive bytes := by
  induction hlength : bytes.length using Nat.strongRecOn generalizing bytes with
  | ind length ih =>
    by_cases hmem : 10 ∈ bytes
    · obtain ⟨front, rest, rfl, hfront⟩ := eq_append_cons_of_mem hmem
      have hshorter : rest.length < length := by
        rw [← hlength, length_append, length_cons]
        omega
      exact line front rest hfront (ih _ hshorter rest rfl)
    · exact last bytes hmem

/-- A line without the carriage return that ends it. -/
def stripReturn (line : List UInt8) : List UInt8 :=
  if line.getLast? = some 13 then line.dropLast else line

theorem stripReturn_cons {byte} (h : line ≠ [] ∨ byte ≠ 13) :
    stripReturn (byte :: line) = byte :: stripReturn line := by
  cases line with
  | nil => simp [stripReturn, h.resolve_left (not_not_intro rfl)]
  | cons next line =>
    rw [stripReturn, stripReturn, getLast?_cons_cons, dropLast_cons_cons]
    split <;> rfl

theorem stripReturn_subset (line : List UInt8) : stripReturn line ⊆ line := by
  rw [stripReturn]
  split
  · exact dropLast_subset line
  · exact List.Subset.refl line

/-- The first line ends at the first newline. -/
theorem rawLines_line (h : 10 ∉ line) (rest : List UInt8) :
    rawLines (line ++ 10 :: rest) = stripReturn line :: rawLines rest := by
  induction line with
  | nil => simp [rawLines, stripReturn]
  | cons byte line ih =>
    obtain ⟨hbyte, hline⟩ : 10 ≠ byte ∧ 10 ∉ line := by simpa using h
    rw [cons_append, rawLines, if_neg (by simpa using hbyte.symm), ih hline]
    by_cases hreturn : line = [] ∧ byte = 13
    · obtain ⟨rfl, rfl⟩ := hreturn
      rfl
    · have hkept : ¬ (byte == 13 && (line ++ 10 :: rest).head? == some 10) = true := by
        cases line with
        | nil => simpa using hreturn
        | cons next line =>
          have hnext : next ≠ 10 := by rintro rfl; simp at hline
          simp [hnext]
      rw [if_neg hkept, stripReturn_cons (not_and_or.mp hreturn)]

/-- A last line needs no newline, and keeps its carriage returns. -/
theorem rawLines_last (h : 10 ∉ line) (hne : line ≠ []) : rawLines line = [line] := by
  induction line with
  | nil => exact absurd rfl hne
  | cons byte line ih =>
    obtain ⟨hbyte, hline⟩ : 10 ≠ byte ∧ 10 ∉ line := by simpa using h
    rw [rawLines, if_neg (by simpa using hbyte.symm)]
    cases line with
    | nil => simp [rawLines]
    | cons next line =>
      have hnext : next ≠ 10 := by rintro rfl; simp at hline
      rw [if_neg (by simp [hnext]), ih hline (cons_ne_nil _ _)]

/-- No line contains the byte that ends it. -/
theorem newline_notMem_rawLines {bytes : List UInt8} (h : line ∈ rawLines bytes) :
    10 ∉ line := by
  induction bytes using byLines with
  | last last hlast =>
    by_cases hne : last = []
    · rw [hne] at h
      cases h
    · rw [rawLines_last hlast hne] at h
      rwa [mem_singleton.mp h]
  | line first rest hfirst ih =>
    rw [rawLines_line hfirst] at h
    rcases mem_cons.mp h with rfl | hrest
    · exact fun hmem => hfirst (stripReturn_subset first hmem)
    · exact ih hrest

/-- The pieces between newlines: each but the last is a line, and the last
is one if it is not empty. -/
def splitLines (bytes : List UInt8) : List (List UInt8) :=
  (bytes.splitOn 10).dropLast.map stripReturn ++
    (bytes.splitOn 10).getLast?.toList.filter (· ≠ [])

/-- **The lines of bytes** are the pieces between newlines. -/
theorem rawLines_eq_splitLines (bytes : List UInt8) : rawLines bytes = splitLines bytes := by
  induction bytes using byLines with
  | last line hline =>
    rw [splitLines, splitOn_eq_singleton hline]
    by_cases hne : line = []
    · rw [hne]
      rfl
    · simp [rawLines_last hline hne, hne]
  | line line rest hline ih =>
    obtain ⟨piece, pieces, hpieces⟩ := exists_cons_of_ne_nil (splitOn_ne_nil 10 rest)
    rw [rawLines_line hline, ih, splitLines, splitLines,
      splitOn_append_cons_self_of_not_mem hline, hpieces, dropLast_cons_cons,
      getLast?_cons_cons]
    rfl

/-- The lines of bytes that end with a line are followed by those of the
bytes after them. -/
theorem rawLines_append (front back : List UInt8) :
    rawLines (front ++ 10 :: back) = rawLines (front ++ [10]) ++ rawLines back := by
  induction front using byLines with
  | last line hline =>
    rw [rawLines_line hline, rawLines_line hline]
    rfl
  | line line rest hline ih =>
    rw [append_assoc, append_assoc, cons_append, cons_append, rawLines_line hline,
      rawLines_line hline, ih, cons_append]

/-- The first lines of some bytes are the lines of the first of them. -/
theorem exists_rawLines_take (bytes : List UInt8) (count : Nat) :
    ∃ front, front <+: bytes ∧ rawLines front = (rawLines bytes).take count := by
  induction bytes using byLines generalizing count with
  | last line hline =>
    cases count with
    | zero => exact ⟨[], nil_prefix, rfl⟩
    | succ count =>
      refine ⟨line, prefix_refl line, (take_of_length_le ?_).symm⟩
      by_cases hne : line = []
      · simp [hne, rawLines]
      · simp [rawLines_last hline hne]
  | line line rest hline ih =>
    cases count with
    | zero => exact ⟨[], nil_prefix, rfl⟩
    | succ count =>
      obtain ⟨front, hfront, hlines⟩ := ih count
      refine ⟨line ++ 10 :: front, ?_, ?_⟩
      · exact prefix_append_right_inj line |>.mpr (cons_prefix_cons.mpr ⟨rfl, hfront⟩)
      · rw [rawLines_line hline, rawLines_line hline, hlines, take_succ_cons]

end Source

namespace Position

variable {p q : Position}

/-- Positions come in the order of reading. -/
instance : LT Position where
  lt p q := p.line < q.line ∨ p.line = q.line ∧ p.column < q.column

instance : LE Position where
  le p q := p < q ∨ p = q

theorem lt_iff : p < q ↔ p.line < q.line ∨ p.line = q.line ∧ p.column < q.column := Iff.rfl

theorem le_refl (p : Position) : p ≤ p := .inr rfl

theorem le_of_lt (h : p < q) : p ≤ q := .inl h

theorem lt_of_lt_of_le {r} (hpq : p < q) (hqr : q ≤ r) : p < r := by
  rcases hqr with hqr | rfl
  · rw [lt_iff] at *
    omega
  · exact hpq

theorem le_trans {r} (hpq : p ≤ q) (hqr : q ≤ r) : p ≤ r := by
  rcases hpq with hpq | rfl
  · exact le_of_lt (lt_of_lt_of_le hpq hqr)
  · exact hqr

/-- A character moves the position on. -/
theorem lt_after (p : Position) (c : Char) : p < p.after c := by
  rw [lt_iff, after]
  split
  · exact .inl (lt_succ_self _)
  · split
    · refine .inr ⟨rfl, ?_⟩
      simp only [tab, tabStop]
      omega
    · exact .inr ⟨rfl, lt_succ_self _⟩

/-- Any other character than a tab or a newline takes one column. -/
theorem after_eq_advance (p : Position) {c} (hnewline : c ≠ '\n') (htab : c ≠ '\t') :
    p.after c = p.advance := by
  simp [after, hnewline, htab]

/-- The position that follows some characters, the first of which stands at
`p`. -/
def past (p : Position) (chars : List Char) : Position :=
  chars.foldl after p

@[simp] theorem past_nil (p : Position) : p.past [] = p := rfl

@[simp] theorem past_cons (p : Position) (c : Char) (chars : List Char) :
    p.past (c :: chars) = (p.after c).past chars := rfl

@[simp] theorem past_append (p : Position) (front back : List Char) :
    p.past (front ++ back) = (p.past front).past back :=
  foldl_append

theorem le_past (p : Position) (chars : List Char) : p ≤ p.past chars := by
  induction chars generalizing p with
  | nil => exact le_refl p
  | cons c chars ih => exact le_trans (le_of_lt (lt_after p c)) (ih _)

/-- Where neither a newline nor a tab stands among characters, the position
after them is one column after that of the last. -/
theorem past_eq_advance {chars} (h : ∀ c ∈ chars, c ≠ '\n' ∧ c ≠ '\t') (hne : chars ≠ [])
    (p : Position) : p.past chars = (p.past chars.dropLast).advance := by
  obtain ⟨hnewline, htab⟩ := h _ (getLast_mem hne)
  calc p.past chars
      = p.past (chars.dropLast ++ [chars.getLast hne]) := by rw [dropLast_append_getLast]
    _ = (p.past chars.dropLast).after (chars.getLast hne) := by
      rw [past_append, past_cons, past_nil]
    _ = (p.past chars.dropLast).advance := after_eq_advance _ hnewline htab

theorem line_past {chars} (h : ∀ c ∈ chars, c ≠ '\n' ∧ c ≠ '\t') (p : Position) :
    (p.past chars).line = p.line := by
  induction chars generalizing p with
  | nil => rfl
  | cons c chars ih =>
    obtain ⟨hnewline, htab⟩ := h c mem_cons_self
    rw [past_cons, ih (fun d hd => h d (mem_cons_of_mem c hd)),
      after_eq_advance p hnewline htab]
    rfl

/-- Lines are counted by newlines. -/
theorem line_past_count (p : Position) (chars : List Char) :
    (p.past chars).line = p.line + chars.count '\n' := by
  induction chars generalizing p with
  | nil => rfl
  | cons c chars ih =>
    rw [past_cons, ih, count_cons, after]
    split
    · next h => simp only [newline, add_assoc, add_comm 1]
    · split <;> simp [tab, advance]

end Position

namespace Source

variable {name : String} {bytes : List UInt8}

/-- Characters as items, each with the position after it, if the first
stands at `here`. -/
def itemsAt (here : Position) : List Char → List Item
  | [] => []
  | c :: chars => .char c (here.after c) :: itemsAt (here.after c) chars

@[simp] theorem itemsAt_nil (here : Position) : itemsAt here [] = [] := rfl

@[simp] theorem itemsAt_cons (here : Position) (c : Char) (chars : List Char) :
    itemsAt here (c :: chars) = .char c (here.after c) :: itemsAt (here.after c) chars := rfl

theorem itemsAt_append (here : Position) (front back : List Char) :
    itemsAt here (front ++ back) = itemsAt here front ++ itemsAt (here.past front) back := by
  induction front generalizing here with
  | nil => rfl
  | cons c front ih =>
    rw [cons_append, itemsAt_cons, itemsAt_cons, ih, cons_append, Position.past_cons]

/-- A source all of whose lines can be read. -/
def Readable (source : Source) : Prop :=
  ∀ line ∈ source.lines, line.isSome

/-- The characters of a source: those of its readable lines, each line with
a newline. -/
def characters (source : Source) : List Char :=
  source.readable.flatMap fun line => line.toList ++ ['\n']

/-- Characters of which the last is a newline, if there is any. -/
def EndsLine (chars : List Char) : Prop :=
  ∀ c ∈ chars.getLast?, c = '\n'

namespace EndsLine

theorem of_append {front back} (h : EndsLine (front ++ back)) : EndsLine back := by
  intro c hc
  apply h
  rw [getLast?_append, Option.mem_def.mp hc]
  rfl

/-- Characters that end with their line have a first line. -/
theorem exists_line {chars} (h : EndsLine chars) (hne : chars ≠ []) :
    ∃ body rest, chars = body ++ '\n' :: rest ∧ '\n' ∉ body := by
  have hmem : '\n' ∈ chars := by
    have hlast := getLast?_eq_some_getLast hne
    rw [← h _ (Option.mem_def.mpr hlast)]
    exact getLast_mem hne
  exact eq_append_cons_of_mem hmem

end EndsLine

theorem endsLine_characters (source : Source) : EndsLine source.characters := by
  rw [characters]
  induction source.readable using reverseRecOn with
  | nil => exact nofun
  | append_singleton lines line _ =>
    intro c hc
    rw [flatMap_append] at hc
    simpa using hc.symm

/-! ### Lines -/

theorem utf8_eq_flatMap (text : String) :
    Text.utf8 text = text.toList.flatMap String.utf8EncodeChar := by
  rw [Text.utf8, ← String.utf8Encode_toList, utf8Encode, data_toByteArray]

/-- A text whose bytes contain no newline contains none. -/
theorem newline_notMem_of_utf8 {text} (h : 10 ∉ Text.utf8 text) : '\n' ∉ text.toList := by
  intro hmem
  apply h
  rw [utf8_eq_flatMap]
  exact mem_flatMap.mpr ⟨'\n', hmem, by decide⟩

theorem newline_notMem_of_mem_lines {text} (h : some text ∈ (ofBytes name bytes).lines) :
    '\n' ∉ text.toList := by
  obtain ⟨line, hline, htext⟩ := mem_map.mp h
  obtain rfl := Text.ofUtf8?_eq_some.mp htext
  exact newline_notMem_of_utf8 (newline_notMem_rawLines hline)

/-- The readable lines of a readable source are all its lines. -/
theorem Readable.lines_eq {source : Source} (h : source.Readable) :
    source.lines = source.readable.map some := by
  rw [readable]
  rw [Readable] at h
  generalize source.lines = lines at h
  induction lines with
  | nil => rfl
  | cons first lines ih =>
    obtain ⟨hfirst, hrest⟩ := forall_mem_cons.mp h
    obtain ⟨text, rfl⟩ := Option.isSome_iff_exists.mp hfirst
    rw [filterMap_cons, id_eq, map_cons, ← ih hrest]

/-- A readable source has as many newlines as lines. -/
theorem count_newline_characters (h : (ofBytes name bytes).Readable) :
    (ofBytes name bytes).characters.count '\n' = (ofBytes name bytes).lines.length := by
  have hnewline := fun text => @newline_notMem_of_mem_lines name bytes text
  rw [h.lines_eq] at hnewline ⊢
  rw [characters, length_map]
  generalize (ofBytes name bytes).readable = texts at hnewline
  induction texts with
  | nil => rfl
  | cons text texts ih =>
    have hnone : text.toList.count '\n' = 0 := count_eq_zero.mpr (hnewline text mem_cons_self)
    rw [flatMap_cons, count_append, count_append, hnone,
      ih fun other hother => hnewline other (mem_cons_of_mem _ hother)]
    simp [add_comm]

/-! ### Items -/

/-- The items of a line, followed by those of the next. -/
theorem lineItems_append {here chars} (h : '\n' ∉ chars) (rest : List Char) :
    lineItems here chars ++ itemsAt ⟨here.line + 1, 1⟩ rest =
      itemsAt here (chars ++ '\n' :: rest) := by
  induction chars generalizing here with
  | nil => rfl
  | cons c chars ih =>
    obtain ⟨hc, hchars⟩ : '\n' ≠ c ∧ '\n' ∉ chars := by simpa using h
    have hline : (here.after c).line = here.line := by
      rw [Position.after, if_neg (by simpa using Ne.symm hc)]
      split <;> rfl
    rw [lineItems, cons_append, cons_append, itemsAt_cons, ← ih hchars, hline]

theorem itemsFrom_eq_itemsAt {lines} (hreadable : ∀ line ∈ lines, line.isSome)
    (hnewline : ∀ text, some text ∈ lines → '\n' ∉ text.toList) (line : Nat) :
    itemsFrom line lines =
      itemsAt ⟨line, 1⟩ ((lines.filterMap id).flatMap fun text => text.toList ++ ['\n']) := by
  induction lines generalizing line with
  | nil => rfl
  | cons first lines ih =>
    cases first with
    | none => cases hreadable none mem_cons_self
    | some text =>
      have hrest := ih (fun other hother => hreadable other (mem_cons_of_mem _ hother))
        (fun other hother => hnewline other (mem_cons_of_mem _ hother)) (line + 1)
      rw [itemsFrom, hrest, filterMap_cons, id_eq, flatMap_cons, append_assoc]
      exact lineItems_append (hnewline text mem_cons_self) _

/-- **The items of a readable source** are those of its characters, the
first of which stands at the first position. -/
theorem items_eq_itemsAt (h : (ofBytes name bytes).Readable) :
    (ofBytes name bytes).items = itemsAt .first (ofBytes name bytes).characters :=
  itemsFrom_eq_itemsAt h (fun _ => newline_notMem_of_mem_lines) 1

/-! ### Unreadable lines -/

/-- **The lines before the first unreadable one** are those of some first
bytes. -/
theorem exists_lines_before (name : String) (h : ¬ (ofBytes name bytes).Readable) :
    ∃ (front : List UInt8) (later : List (Option String)),
    front <+: bytes ∧ (ofBytes name front).Readable ∧
      (ofBytes name bytes).lines = (ofBytes name front).lines ++ none :: later := by
  have hmem : none ∈ (ofBytes name bytes).lines := by
    by_contra hnone
    refine h fun line hline => ?_
    cases line with
    | none => exact absurd hline hnone
    | some text => rfl
  obtain ⟨before, later, hlines, hbefore⟩ := eq_append_cons_of_mem hmem
  obtain ⟨front, hfront, htake⟩ := exists_rawLines_take bytes before.length
  have hsame : (ofBytes name front).lines = before := by
    have hmap :
      (ofBytes name front).lines = (ofBytes name bytes).lines.take before.length := by
      simp only [ofBytes, htake, map_take]
    rw [hmap, hlines, take_left]
  refine ⟨front, later, hfront, fun line hline => ?_, by rw [hsame, hlines]⟩
  cases line with
  | none => exact absurd (hsame ▸ hline) hbefore
  | some text => rfl

theorem itemsFrom_append (line : Nat) (lines more : List (Option String)) :
    itemsFrom line (lines ++ more) =
      itemsFrom line lines ++ itemsFrom (line + lines.length) more := by
  induction lines generalizing line with
  | nil => rfl
  | cons first lines ih =>
    have hcount : line + 1 + lines.length = line + (first :: lines).length := by
      rw [length_cons]
      omega
    cases first with
    | none => rw [cons_append, itemsFrom, itemsFrom, ih, hcount, cons_append]
    | some text => rw [cons_append, itemsFrom, itemsFrom, ih, hcount, append_assoc]

/-- The items of a source whose lines before the first unreadable one are
those of `front`. -/
theorem items_of_lines {front others later} (hreadable : (ofBytes name front).Readable)
    (hothers : (ofBytes name others).lines = (ofBytes name front).lines ++ none :: later) :
    (ofBytes name others).items = itemsAt .first (ofBytes name front).characters ++
      .unreadable :: itemsFrom (1 + (ofBytes name front).lines.length + 1) later := by
  rw [← items_eq_itemsAt hreadable, items, hothers, itemsFrom_append]
  rfl

end Source
end Xdr
