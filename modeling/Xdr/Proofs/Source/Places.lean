import Mathlib.Data.List.Infix
import Xdr.Proofs.Source.Characters
import Xdr.Token.Lexer

/-!
# Where characters stand

The stream of items says of each character where the next one stands.  Here
the place of a character is said without the stream: the number of its line,
and a column that depends on the characters before it on the line.  The two
agree.

## Main Statements

* `Source.items_track_places` — the items of a source, their places, and the
  lines that are shown
* `Source.position_le` — how far the lines and columns of a source reach
* `Source.position_lt_size` — below half a gigabyte they are numbers of 32
  bits
-/

namespace Xdr

open List Nat

/-- A newline leads to the next line, a tab to the next column congruent to
one modulo eight, and any other character one column on. -/
inductive Position.Step (p : Position) : Char → Position → Prop where
  | newline : Step p '\n' ⟨p.line + 1, 1⟩
  | tab {next : Position} (hline : next.line = p.line) (hstop : next.column % 8 = 1) (hlt :
    p.column < next.column) (hle : next.column ≤ p.column + 8) : Step p '\t' next
  | plain {c} (hnewline : c ≠ '\n') (htab : c ≠ '\t') : Step p c ⟨p.line, p.column + 1⟩

theorem Position.step_after {p : Position} (h : 1 ≤ p.column) (c : Char) :
    p.Step c (p.after c) := by
  by_cases hnewline : c = '\n'
  · subst hnewline
    exact .newline
  by_cases htab : c = '\t'
  · subst htab
    have hcolumn : (p.after '\t').column = 1 + ((p.column - 1) / 8 + 1) * 8 := rfl
    exact .tab rfl (by omega) (by omega) (by omega)
  · rw [after_eq_advance p hnewline htab]
    exact .plain hnewline htab

/-- The character of an item, unless it stands for a line that cannot be
read. -/
def Item.char? : Item → Option Char
  | .char c _ => some c
  | .unreadable => none

namespace Source

/-- The columns that some characters take from the beginning of their line:
one each, but a tab as many as lead to the next multiple of eight. -/
def width (chars : List Char) : Nat :=
  chars.foldl (fun columns c => if c = '\t' then (columns / 8 + 1) * 8 else columns + 1) 0

theorem width_concat (chars : List Char) (c : Char) :
    width (chars ++ [c]) = if c = '\t' then (width chars / 8 + 1) * 8
      else width chars + 1 := by
  rw [width, foldl_append]
  rfl

theorem width_lt_concat (chars : List Char) (c : Char) :
    width chars < width (chars ++ [c]) := by
  rw [width_concat]
  split <;> omega

/-- A column that is counted from the beginning of the line moves as the
position does. -/
theorem after_width (line : Nat) (front : List Char) {c} (h : c ≠ '\n') :
    (⟨line, 1 + width front⟩ : Position).after c = ⟨line, 1 + width (front ++ [c])⟩ := by
  have hnot : ¬ (c == '\n') = true := by simpa using h
  rw [Position.after, if_neg hnot, width_concat]
  by_cases htab : c = '\t'
  · rw [if_pos (by simpa using htab), if_pos htab, Position.tab, Position.tabStop,
      Nat.add_sub_cancel_left]
  · rw [if_neg (by simpa using htab), if_neg htab]
    rfl

/-- The characters of a line and the newline after them, each with its
place.  The first stands after `front`. -/
def linePlaces (line : Nat) (front chars : List Char) : List (Option (Char × Position)) :=
  ((chars ++ ['\n']).zip (chars.inits.map fun before =>
    ⟨line, 1 + width (front ++ before)⟩)).map some

/-- The places of the items of some lines, the first of which has the number
`line`. -/
def placesFrom (line : Nat) (lines : List (Option String)) :
    List (Option (Char × Position)) :=
  (lines.zipIdx line).flatMap fun numbered =>
    numbered.1.elim [none] fun text => linePlaces numbered.2 [] text.toList

/-- The characters of a source with their places.  Lines that cannot be read
have no characters, but they have a number. -/
def places (source : Source) : List (Option (Char × Position)) :=
  placesFrom 1 source.lines

theorem linePlaces_nil (line : Nat) (front : List Char) :
    linePlaces line front [] = [some ('\n', ⟨line, 1 + width front⟩)] := by
  simp [linePlaces]

theorem linePlaces_cons (line : Nat) (front : List Char) (c : Char) (chars : List Char) :
    linePlaces line front (c :: chars) =
      some (c, ⟨line, 1 + width front⟩) :: linePlaces line (front ++ [c]) chars := by
  simp [linePlaces, Function.comp_def]

theorem map_linePlaces (line : Nat) (front chars : List Char) :
    (linePlaces line front chars).map (Option.map Prod.fst) = (chars ++ ['\n']).map some := by
  induction chars generalizing front with
  | nil => rw [linePlaces_nil]; rfl
  | cons c chars ih =>
    rw [linePlaces_cons, map_cons, ih]
    rfl

theorem placesFrom_none (line : Nat) (lines : List (Option String)) :
    placesFrom line (none :: lines) = none :: placesFrom (line + 1) lines := rfl

theorem placesFrom_some (line : Nat) (text : String) (lines : List (Option String)) :
    placesFrom line (some text :: lines) = linePlaces line [] text.toList ++
    placesFrom (line + 1) lines := rfl

/-- The first character of some lines stands at the beginning of the first. -/
theorem head?_placesFrom {line lines c p}
    (h : (placesFrom line lines).head? = some (some (c, p))) : p = ⟨line, 1⟩ := by
  cases lines with
  | nil => cases h
  | cons first lines =>
    cases first with
    | none => cases h
    | some text =>
      rw [placesFrom_some] at h
      cases htext : text.toList with
      | nil =>
        rw [htext, linePlaces_nil] at h
        cases h
        rfl
      | cons d chars =>
        rw [htext, linePlaces_cons] at h
        cases h
        rfl

/-! ### The items -/

/-- Items that belong to given places: they have the same characters, and
each carries the position that its character leads to, which is the place of
the next character. -/
structure Tracks (items : List Item) (places : List (Option (Char × Position))) : Prop where
  chars : items.map Item.char? = places.map (Option.map Prod.fst)
  step : ∀ (i : Nat) (c : Char) (next : Position), items[i]? = some (.char c next) →
    ∃ p, places[i]? = some (some (c, p)) ∧ p.Step c next ∧
      ∀ d q, places[i + 1]? = some (some (d, q)) → q = next

theorem Tracks.cons_unreadable {items places} (h : Tracks items places) :
    Tracks (.unreadable :: items) (none :: places) where
  chars := by rw [map_cons, map_cons, h.chars]; rfl
  step i c next hitem := by
    cases i with
    | zero => cases hitem
    | succ i => exact h.step i c next hitem

theorem Tracks.cons_char {items} {places : List (Option (Char × Position))} {c}
    {p next : Position} (hstep : p.Step c next)
    (hnext : ∀ d q, places.head? = some (some (d, q)) → q = next) (h : Tracks items places) :
    Tracks (.char c next :: items) (some (c, p) :: places) where
  chars := by rw [map_cons, map_cons, h.chars]; rfl
  step i d later hitem := by
    cases i with
    | zero =>
      cases hitem
      refine ⟨p, rfl, hstep, fun d q hplace => hnext d q ?_⟩
      rw [head?_eq_getElem?]
      exact hplace
    | succ i => exact h.step i d later hitem

/-- A line leads to the beginning of the next. -/
theorem Tracks.line {items places} (h : Tracks items places) {line}
    (hnext : ∀ d q, places.head? = some (some (d, q)) → q = ⟨line + 1, 1⟩) (front : List Char)
    {chars} (hchars : '\n' ∉ chars) :
    Tracks (lineItems ⟨line, 1 + width front⟩ chars ++ items) (linePlaces line front chars ++
      places) := by
  induction chars generalizing front with
  | nil =>
    rw [linePlaces_nil]
    exact h.cons_char .newline hnext
  | cons c chars ih =>
    obtain ⟨hc, hchars⟩ : '\n' ≠ c ∧ '\n' ∉ chars := by simpa using hchars
    have hcolumn : 1 ≤ (⟨line, 1 + width front⟩ : Position).column := le_add_right 1 _
    have hstep := Position.step_after hcolumn c
    rw [lineItems, linePlaces_cons]
    rw [after_width line front hc.symm] at hstep ⊢
    refine (ih (front ++ [c]) hchars).cons_char hstep fun d q hplace => ?_
    cases chars with
    | nil =>
      rw [linePlaces_nil] at hplace
      cases hplace
      rfl
    | cons next chars =>
      rw [linePlaces_cons] at hplace
      cases hplace
      rfl

theorem tracks_itemsFrom {lines} (h : ∀ text, some text ∈ lines → '\n' ∉ text.toList)
    (line : Nat) : Tracks (itemsFrom line lines) (placesFrom line lines) := by
  induction lines generalizing line with
  | nil => exact ⟨rfl, nofun⟩
  | cons first lines ih =>
    have hrest := ih (fun text htext => h text (mem_cons_of_mem _ htext)) (line + 1)
    cases first with
    | none => exact hrest.cons_unreadable
    | some text => exact hrest.line (fun d q => head?_placesFrom) [] (h text mem_cons_self)

/-! ### The order of places -/

theorem pairwise_linePlaces (line : Nat) (front chars : List Char) :
    ((linePlaces line front chars).filterMap id).Pairwise (fun a b => a.2 < b.2) ∧
      ∀ a ∈ (linePlaces line front chars).filterMap id,
      a.2.line = line ∧ width front < a.2.column := by
  induction chars generalizing front with
  | nil => simp [linePlaces_nil]
  | cons c chars ih =>
    obtain ⟨hpairs, hbound⟩ := ih (front ++ [c])
    have hgrows := width_lt_concat front c
    rw [linePlaces_cons, filterMap_cons_some (f := id) rfl, pairwise_cons, forall_mem_cons]
    refine ⟨⟨fun a ha => ?_, hpairs⟩, ⟨rfl, ?_⟩, fun a ha => ?_⟩
    · obtain ⟨hline, hcolumn⟩ := hbound a ha
      have hlater : 1 + width front < a.2.column := by omega
      exact .inr ⟨hline.symm, hlater⟩
    · exact lt_one_add_iff.mpr (le_refl _)
    · obtain ⟨hline, hcolumn⟩ := hbound a ha
      exact ⟨hline, lt_trans hgrows hcolumn⟩

theorem pairwise_placesFrom (line : Nat) (lines : List (Option String)) :
    ((placesFrom line lines).filterMap id).Pairwise (fun a b => a.2 < b.2) ∧
      ∀ a ∈ (placesFrom line lines).filterMap id, line ≤ a.2.line := by
  induction lines generalizing line with
  | nil => exact ⟨.nil, nofun⟩
  | cons first lines ih =>
    obtain ⟨hpairs, hbound⟩ := ih (line + 1)
    cases first with
    | none =>
      rw [placesFrom_none, filterMap_cons_none (f := id) rfl]
      exact ⟨hpairs, fun a ha => le_of_succ_le (hbound a ha)⟩
    | some text =>
      obtain ⟨hline, hhere⟩ := pairwise_linePlaces line [] text.toList
      rw [placesFrom_some, filterMap_append, pairwise_append, forall_mem_append]
      refine ⟨⟨hline, hpairs, fun a ha b hb => ?_⟩, fun a ha => ?_, fun a ha => ?_⟩
      · -- What stands on a later line comes later.
        have hnext := hbound b hb
        rw [← (hhere a ha).1] at hnext
        exact .inl hnext
      · exact le_of_eq (hhere a ha).1.symm
      · exact le_of_succ_le (hbound a ha)

/-- **The items of a source.**  Its lines are the pieces between newlines.
Each that can be read gives its characters and a newline, each other one a
failure.  Reading begins at the first position, and each character carries
the place of the next one: the number of its line, all lines counted, and
the column after what stands before it on the line.  Places increase, and so
do the columns of a line.  The lines to show are those that can be read, in
order. -/
theorem items_track_places (name : String) (bytes : List UInt8) :
    (ofBytes name bytes).lines = (splitLines bytes).map Text.ofUtf8? ∧
    (ofBytes name bytes).places.map (Option.map Prod.fst) =
      (splitLines bytes).flatMap (fun line =>
        (Text.ofUtf8? line).elim [none] fun text => (text.toList ++ ['\n']).map some) ∧
    Tracks (ofBytes name bytes).items (ofBytes name bytes).places ∧
    (Lexer.ofSource (ofBytes name bytes)).start = ⟨1, 1⟩ ∧
    (Lexer.ofSource (ofBytes name bytes)).here = ⟨1, 1⟩ ∧
    (∀ c p, (ofBytes name bytes).places.head? = some (some (c, p)) → p = ⟨1, 1⟩) ∧
    ((ofBytes name bytes).places.filterMap id).Pairwise (fun a b => a.2 < b.2) ∧
    (ofBytes name bytes).excerpt 0 = "" ∧
    ∀ i, (ofBytes name bytes).excerpt (i + 1) =
      ((splitLines bytes).filterMap Text.ofUtf8?)[i]?.getD "" := by
  have hlines : (ofBytes name bytes).lines = (splitLines bytes).map Text.ofUtf8? := by
    rw [← rawLines_eq_splitLines]
    rfl
  refine ⟨hlines, ?_, tracks_itemsFrom (fun _ => newline_notMem_of_mem_lines) 1, rfl, rfl,
    fun c p => head?_placesFrom, (pairwise_placesFrom 1 _).1, rfl, fun i => ?_⟩
  · rw [places, hlines]
    generalize 1 = line
    induction splitLines bytes generalizing line with
    | nil => rfl
    | cons first pieces ih =>
      rw [map_cons, flatMap_cons, ← ih (line + 1)]
      cases Text.ofUtf8? first with
      | none => rfl
      | some text => rw [placesFrom_some, map_append, map_linePlaces]; rfl
  · rw [excerpt, if_neg (Nat.succ_ne_zero i), readable, hlines, filterMap_map]
    rfl

/-! ### How far positions reach -/

/-- The lines of some bytes are not more, and none of them is longer. -/
theorem length_rawLines_le (bytes : List UInt8) :
    (rawLines bytes).length ≤ bytes.length ∧
      ∀ line ∈ rawLines bytes, line.length ≤ bytes.length := by
  fun_induction rawLines bytes <;> grind

/-- A line has no more characters than bytes. -/
theorem length_toList_le {line text} (h : Text.ofUtf8? line = some text) :
    text.toList.length ≤ line.length := by
  rw [Text.ofUtf8?_eq_some.mp h, utf8_eq_flatMap]
  induction text.toList with
  | nil => exact le_refl 0
  | cons c chars ih =>
    have hpos : 0 < (String.utf8EncodeChar c).length := by
      rw [String.length_utf8EncodeChar]
      exact c.utf8Size_pos
    rw [flatMap_cons, length_append, length_cons]
    omega

/-- A character of a line takes at most the columns of a tab. -/
theorem le_of_mem_lineItems {c next here chars} (hmem : .char c next ∈ lineItems here chars)
    (hhere : 1 ≤ here.column) (hchars : '\n' ∉ chars) :
    next.line ≤ here.line + 1 ∧ next.column ≤ here.column + 8 * chars.length := by
  induction chars generalizing here with
  | nil =>
    cases mem_singleton.mp hmem
    exact ⟨le_refl _, hhere⟩
  | cons d chars ih =>
    obtain ⟨hd, hchars⟩ := ne_and_not_mem_of_not_mem_cons hchars
    have hstep : (here.after d).line = here.line ∧ here.column < (here.after d).column ∧
        (here.after d).column ≤ here.column + 8 := by
      generalize hnext : here.after d = reached
      have hstep := Position.step_after hhere d
      rw [hnext] at hstep
      cases hstep with
      | newline => exact absurd rfl hd
      | tab hline hstop hlt hle => exact ⟨hline, hlt, hle⟩
      | plain => exact ⟨rfl, Nat.lt_succ_self _, Nat.add_le_add_left (by decide) _⟩
    rcases mem_cons.mp hmem with heq | hmem
    · cases heq
      grind
    · obtain ⟨hline, hcolumn⟩ := ih hmem (by omega) hchars
      grind

theorem le_of_mem_itemsFrom {c next lines line length}
    (hmem : .char c next ∈ itemsFrom line lines)
    (hlines : ∀ text, some text ∈ lines → '\n' ∉ text.toList ∧ text.toList.length ≤ length) :
    next.line ≤ line + lines.length ∧ next.column ≤ 8 * length + 1 := by
  induction lines generalizing line with
  | nil => cases hmem
  | cons first lines ih =>
    have hrest : ∀ text, some text ∈ lines → _ := fun text htext =>
      hlines text (mem_cons_of_mem _ htext)
    cases first with
    | none =>
      rcases mem_cons.mp hmem with heq | hmem
      · cases heq
      · have := ih hmem hrest
        grind
    | some text =>
      obtain ⟨htext, hlength⟩ := hlines text mem_cons_self
      rcases mem_append.mp hmem with hmem | hmem
      · obtain ⟨hline, hcolumn⟩ := le_of_mem_lineItems hmem (le_refl 1) htext
        grind
      · have := ih hmem hrest
        grind

/-- **How far the positions of a source reach.**  It has no more lines than
bytes, and each byte takes at most the eight columns of a tab. -/
theorem position_le {name : String} {bytes : List UInt8} {c : Char} {next : Position}
    (h : .char c next ∈ (ofBytes name bytes).items) :
    next.line ≤ bytes.length + 1 ∧ next.column ≤ 8 * bytes.length + 1 := by
  obtain ⟨hcount, hlength⟩ := length_rawLines_le bytes
  have hlines : ∀ text, some text ∈ (ofBytes name bytes).lines →
      '\n' ∉ text.toList ∧ text.toList.length ≤ bytes.length := by
    intro text htext
    obtain ⟨line, hline, heq⟩ := mem_map.mp htext
    exact ⟨newline_notMem_of_mem_lines htext,
      (length_toList_le heq).trans (hlength line hline)⟩
  obtain ⟨hline, hcolumn⟩ := le_of_mem_itemsFrom h hlines
  rw [ofBytes, length_map] at hline
  exact ⟨by omega, hcolumn⟩

/-- Lines and columns of a source of less than half a gigabyte are numbers
of 32 bits, and so is the column after each. -/
theorem position_lt_size {name bytes c next} (h : .char c next ∈ (ofBytes name bytes).items)
    (hbytes : bytes.length < 2 ^ 29 - 1) :
    next.line < UInt32.size ∧ next.advance.column < UInt32.size := by
  obtain ⟨hline, hcolumn⟩ := position_le h
  have hsize : UInt32.size = 8 * 2 ^ 29 := rfl
  have hnext : next.advance.column = next.column + 1 := rfl
  rw [hnext, hsize]
  constructor <;> omega

end Source
end Xdr
