import Xdr.Proofs.Emit.Brackets
import Xdr.Text.Numeral
import Xdr.Token.Lexer

/-!
# The words of emitted code

Emitted code consists of fixed texts with names and numbers in between.  A
fixed text is looked at once, with holes where the names and numbers go.  If
it has its brackets balanced around the holes, and each hole is set off from
the letters next to it, then nothing that is put in can change this: the
brackets stay balanced and the words of the whole are those of the parts.

## Main Statements

* `Emit.Occurs.of_append` — a word occurs in one of two texts, unless it can
  lie across the seam
* `Emit.sound_word`, `Emit.sound_numeral` — words and numerals
* `Emit.Template.sound` — a template that passes the check is sound,
  whatever sound texts fill its holes
-/

namespace Xdr.Emit

open Bool Lexer List Option Xdr.Bracket

variable {front back before : List Char}

/-- The items of the runtime that emitted code can refer to. -/
def runtimeItems : List String :=
  ["Packer", "Unpacker", "Xdr", "XdrError", "Structural", "Value", "Map",
    "structural", "Procedure"]

theorem word_of_mem_runtimeItems {item} (h : item ∈ runtimeItems) :
    item.toList ≠ [] ∧ ∀ c ∈ item.toList, continuesWord c = true := by
  have hall : (runtimeItems.all fun item =>
    !item.toList.isEmpty && item.toList.all continuesWord) = true := by
    decide
  have hitem := all_eq_true.mp hall item h
  rw [and_eq_true, not_eq_true', isEmpty_eq_false_iff] at hitem
  exact ⟨hitem.1, all_eq_true.mp hitem.2⟩

/-! ### Words in a text -/

/-- The word stands in the text after `before`, and no letter, digit or
underscore is next to it. -/
def Occurs (text : List Char) (word : String) (before : List Char) : Prop :=
  ∃ after, text = before ++ word.toList ++ after ∧ (∀ c ∈ before.getLast?,
    continuesWord c = false) ∧ ∀ c ∈ after.head?, continuesWord c = false

/-- The word occurs in the text without a path in front of it. -/
def Uses (text : List Char) (word : String) : Prop :=
  ∃ before, Occurs text word before ∧ ¬ [':', ':'] <:+ before

/-- No word lies across the seam between two texts. -/
def Seam (front back : List Char) : Prop :=
  (∀ c ∈ front.getLast?, continuesWord c = false) ∨ ∀ c ∈ back.head?, continuesWord c = false

section Words

variable {word : String}

/-- **A word occurs in one of two texts**, unless it can lie across the
seam. -/
theorem Occurs.of_append (hword : ∀ c ∈ word.toList, continuesWord c = true)
    (hseam : Seam front back) (h : Occurs (front ++ back) word before) :
    Occurs front word before ∨ ∃ later, before = front ++ later ∧ Occurs back word later := by
  obtain ⟨after, htext, hleft, hright⟩ := h
  rw [append_assoc] at htext
  rcases append_eq_append_iff.mp htext with ⟨later, hbefore, hback⟩ | ⟨begun, hfront, hrest⟩
  · -- The word begins in the second text.
    refine .inr ⟨later, hbefore, after, by rw [hback, append_assoc], fun c hc => ?_, hright⟩
    refine hleft c ?_
    rw [hbefore, getLast?_append, mem_def.mp hc]
    rfl
  · rcases append_eq_append_iff.mp hrest with ⟨more, hbegun, hafter⟩ | ⟨left, hword', hback⟩
    · -- It ends in the first one.
      refine .inl ⟨more, by rw [hfront, hbegun, append_assoc], hleft, fun c hc => ?_⟩
      refine hright c ?_
      rw [hafter, head?_append, mem_def.mp hc]
      rfl
    · cases left with
      | nil =>
        refine .inl ⟨[], ?_, hleft, by simp⟩
        rw [append_nil] at hword'
        rw [hfront, hword', append_nil]
      | cons d left =>
        cases hbegins : begun.getLast? with
        | none =>
          have hnil : begun = [] := getLast?_eq_none_iff.mp hbegins
          rw [hnil, append_nil] at hfront
          rw [hnil, nil_append] at hword'
          refine .inr ⟨[], by rw [hfront, append_nil], after, ?_, by simp, hright⟩
          rw [hback, hword', nil_append]
        | some c =>
          -- The seam would be between two characters of the word.
          have hc : continuesWord c = true := by
            refine hword c ?_
            rw [hword']
            exact mem_append_left _ (mem_of_getLast? hbegins)
          have hd : continuesWord d = true := by
            refine hword d ?_
            rw [hword']
            exact mem_append_right _ mem_cons_self
          rcases hseam with hseam | hseam
          · have hlast := hseam c (by rw [hfront, getLast?_append, hbegins]; rfl)
            rw [hc] at hlast
            cases hlast
          · have hfirst := hseam d (by rw [hback]; rfl)
            rw [hd] at hfirst
            cases hfirst

theorem Uses.of_append (hword : ∀ c ∈ word.toList, continuesWord c = true)
    (hseam : Seam front back)
    (h : Uses (front ++ back) word) : Uses front word ∨ Uses back word := by
  obtain ⟨before, hoccurs, hpath⟩ := h
  rcases hoccurs.of_append hword hseam with hfront | ⟨later, rfl, hback⟩
  · exact .inl ⟨before, hfront, hpath⟩
  · exact .inr ⟨later, hback, fun hlater => hpath (hlater.trans (suffix_append _ _))⟩

/-- In a text of letters, digits and underscores no other word occurs than
the text itself. -/
theorem Occurs.eq_of_word {text} (htext : ∀ c ∈ text, continuesWord c = true)
    (h : Occurs text word before) : text = word.toList := by
  obtain ⟨after, rfl, hleft, hright⟩ := h
  have hbefore : before = [] := by
    rw [← getLast?_eq_none_iff]
    by_contra hsome
    obtain ⟨c, hc⟩ := ne_none_iff_exists'.mp hsome
    have hin := htext c (mem_append_left _ (mem_append_left _ (mem_of_getLast? hc)))
    rw [hleft c hc] at hin
    cases hin
  have hafter : after = [] := by
    rw [← head?_eq_none_iff]
    by_contra hsome
    obtain ⟨c, hc⟩ := ne_none_iff_exists'.mp hsome
    have hin := htext c (mem_append_right _ (mem_of_mem_head? hc))
    rw [hright c hc] at hin
    cases hin
  rw [hbefore, hafter, nil_append, append_nil]

end Words

/-! ### Sound texts -/

/-- Of the items of the runtime, the text uses only those given. -/
def Covered (allowed : List String) (text : List Char) : Prop :=
  ∀ item ∈ runtimeItems, Uses text item → item ∈ allowed

theorem covered_nil (allowed : List String) : Covered allowed [] := by
  rintro item hitem ⟨before, ⟨after, hnil, -⟩, -⟩
  have hempty : before ++ item.toList ++ after = [] := hnil.symm
  simp [(word_of_mem_runtimeItems hitem).1] at hempty

theorem Covered.append {allowed} (hfront : Covered allowed front)
    (hback : Covered allowed back) (hseam : Seam front back) :
    Covered allowed (front ++ back) := by
  intro item hitem huses
  rcases huses.of_append (word_of_mem_runtimeItems hitem).2 hseam with huses | huses
  · exact hfront item hitem huses
  · exact hback item hitem huses

/-- The text closes no bracket that it did not open, and leaves those given
open, the last one first.  Of the items of the runtime it uses only those
given. -/
structure Leaves (allowed : List String) (opened : List Bracket) (text : String) : Prop where
  nests : nest [] text.toList = some opened
  covered : Covered allowed text.toList

/-- The brackets of the text are balanced, and of the items of the runtime
it uses only those given. -/
abbrev Sound (allowed : List String) (text : String) : Prop :=
  Leaves allowed [] text

/-- A text that uses no items at all. -/
theorem Sound.any {text} (h : Sound [] text) {allowed} : Sound allowed text :=
  ⟨h.nests, fun item hitem huses => absurd (h.covered item hitem huses) not_mem_nil⟩

/-- **A word is sound** that is no item of the runtime, or is one of those
given. -/
theorem sound_word {allowed : List String} {text : String}
    (hword : ∀ c ∈ text.toList, continuesWord c = true)
    (hallowed : text ∈ runtimeItems → text ∈ allowed) : Sound allowed text where
  nests := nest_apart (fun bracket => by cases bracket <;> exact ⟨rfl, rfl⟩) hword []
  covered := by
    rintro item hitem ⟨before, hoccurs, -⟩
    have hsame := hoccurs.eq_of_word hword
    rw [String.toList_inj] at hsame
    subst hsame
    exact hallowed hitem

/-- The characters that numerals are made of. -/
def inNumeral (c : Char) : Bool :=
  ['-', '+', 'x', 'X', 'o'].contains c || Numeral.isDigitIn 16 c

/-- **A numeral is sound**: every item of the runtime has a letter that no
numeral has. -/
theorem sound_numeral {text : String} (h : ∀ c ∈ text.toList, inNumeral c = true) :
    Sound [] text where
  nests := nest_apart (fun bracket => by cases bracket <;> exact ⟨rfl, rfl⟩) h []
  covered := by
    rintro item hitem ⟨before, ⟨after, htext, -⟩, -⟩
    have hletters : (runtimeItems.all fun item => item.toList.any (!inNumeral ·)) = true := by
      decide +kernel
    obtain ⟨c, hc, hnot⟩ := any_eq_true.mp (all_eq_true.mp hletters item hitem)
    rw [h c (htext ▸ mem_append_left _ (mem_append_right _ hc))] at hnot
    cases hnot

/-! ### Templates -/

/-- The word begins the text and ends there. -/
def leads (text word : List Char) : Bool :=
  word.isPrefixOf text && (text.drop word.length).head?.all (!continuesWord ·)

/-- Whether the text uses none of the words, given what stands before it,
the last character first. -/
def avoids (words : List (List Char)) (before : List Char) : List Char → Bool
  | [] => true
  | c :: text =>
    (before.head?.any continuesWord || [':', ':'].isPrefixOf before ||
      words.all (!leads (c :: text) ·)) &&
      avoids words (c :: before) text

/-- The items of the runtime as characters, so that a check need not decode
them. -/
def runtimeWords : List (List Char) :=
  [['P', 'a', 'c', 'k', 'e', 'r'], ['U', 'n', 'p', 'a', 'c', 'k', 'e', 'r'], ['X', 'd', 'r'],
    ['X', 'd', 'r', 'E', 'r', 'r', 'o', 'r'],
    ['S', 't', 'r', 'u', 'c', 't', 'u', 'r', 'a', 'l'],
    ['V', 'a', 'l', 'u', 'e'], ['M', 'a', 'p'],
    ['s', 't', 'r', 'u', 'c', 't', 'u', 'r', 'a', 'l'],
    ['P', 'r', 'o', 'c', 'e', 'd', 'u', 'r', 'e']]

theorem map_toList_runtimeItems : runtimeItems.map String.toList = runtimeWords := by
  decide +kernel

/-- Whether of the items of the runtime the text uses only those given. -/
def covers (allowed : List String) (text : List Char) : Bool :=
  avoids (runtimeWords.filter fun word => !allowed.contains (String.ofList word)) [] text

theorem leads_append {word after : List Char}
    (h : ∀ c ∈ after.head?, continuesWord c = false) : leads (word ++ after) word = true := by
  rw [leads, drop_left, and_eq_true, Option.all_eq_true]
  refine ⟨ isPrefixOf_iff_prefix.mpr (prefix_append _ _), fun c hc => ?_⟩
  rw [h c hc]
  rfl

/-- A word that is avoided does not stand behind what was already looked at.
-/
theorem not_leads_of_avoids {words passed text word}
    (h : avoids words before (passed ++ text) = true) (hword : word ∈ words) (hne : text ≠ [])
    (hleft : ∀ c ∈ (passed.reverse ++ before).head?, continuesWord c = false)
    (hpath : ¬ [':', ':'] <+: passed.reverse ++ before) : leads text word = false := by
  induction passed generalizing before with
  | nil =>
    obtain ⟨c, rest, rfl⟩ := exists_cons_of_ne_nil hne
    rw [reverse_nil, nil_append] at hleft hpath
    rw [nil_append, avoids, and_eq_true, or_eq_true, or_eq_true, Option.any_eq_true] at h
    rcases h.1 with (⟨d, hd, hcontinues⟩ | hcolons) | hwords
    · rw [hleft d hd] at hcontinues
      cases hcontinues
    · exact absurd ( isPrefixOf_iff_prefix.mp hcolons) hpath
    · simpa using all_eq_true.mp hwords word hword
  | cons c passed ih =>
    rw [cons_append, avoids, and_eq_true] at h
    rw [reverse_cons, append_assoc] at hleft hpath
    exact ih h.2 hleft hpath

theorem covered_of_covers {allowed text} (h : covers allowed text = true) :
    Covered allowed text := by
  rintro item hitem ⟨before, ⟨after, rfl, hleft, hright⟩, hpath⟩
  by_contra hother
  have hword : item.toList ∈ runtimeWords.filter fun word =>
    !allowed.contains (String.ofList word) := by
    rw [mem_filter, ← map_toList_runtimeItems, String.ofList_toList]
    exact ⟨mem_map_of_mem hitem, by simpa using hother⟩
  have hne : item.toList ++ after ≠ [] := by
    simp [(word_of_mem_runtimeItems hitem).1]
  rw [covers, append_assoc] at h
  have hnot := not_leads_of_avoids h hword hne (by simpa using hleft)
    (by simpa [← reverse_suffix] using hpath)
  rw [leads_append hright] at hnot
  cases hnot

/-- A text with holes: the characters of its fixed parts, and a hole
wherever there are none. -/
abbrev Template := List (Option (List Char))

namespace Template

/-- The parts of a template, with the holes filled in order. -/
def pieces : Template → List String → List String
  | [], _ => []
  | some chars :: template, fillings => String.ofList chars :: pieces template fillings
  | none :: template, filling :: fillings => filling :: pieces template fillings
  | none :: template, [] => pieces template []

/-- The text that a template becomes. -/
def fill (template : Template) (fillings : List String) : String :=
  match pieces template fillings with
  | [] => ""
  | first :: others => others.foldl (· ++ ·) first

/-- The fixed part ends outside of words. -/
def endsApart (chars : List Char) : Bool :=
  chars.getLast?.any (!continuesWord ·)

/-- The fixed part begins outside of words. -/
def startsApart (chars : List Char) : Bool :=
  chars.head?.any (!continuesWord ·)

/-- No word can lie across two parts: of any two that follow each other, a
fixed one sets the other off. -/
def setOff : Template → Bool
  | part :: other :: template =>
    (part.any endsApart || other.any startsApart) && setOff (other :: template)
  | _ => true

/-- Whether a template leaves the given brackets open around its holes and
closes the others, its parts are set off, and of the items of the runtime
its fixed parts use only those given. -/
def check (opened : List Bracket) (used : List String) (template : Template) : Bool :=
  nest [] (template.flatMap (·.getD [])) == some opened && setOff template &&
    template.all fun part => covers used (part.getD [])

theorem toList_foldl_append (first : String) (others : List String) :
    (others.foldl (· ++ ·) first).toList = first.toList ++ others.flatMap String.toList := by
  induction others generalizing first with
  | nil => exact (append_nil _).symm
  | cons second others ih =>
    rw [foldl_cons, ih, String.toList_append, flatMap_cons, append_assoc]

theorem toList_fill (template : Template) (fillings : List String) :
    (template.fill fillings).toList = (template.pieces fillings).flatMap String.toList := by
  rw [fill]
  split
  · next hnone =>
    rw [hnone]
    rfl
  · next first others hpieces => rw [toList_foldl_append, hpieces, flatMap_cons]

section Filled

variable {allowed : List String}

/-- Sound fillings do nothing to the brackets. -/
theorem nest_pieces (template : Template) {fillings}
    (h : ∀ filling ∈ fillings, Sound allowed filling) (stack : List Bracket) :
    nest stack ((template.pieces fillings).flatMap String.toList) =
      nest stack (template.flatMap (·.getD [])) := by
  induction template generalizing fillings stack with
  | nil => rfl
  | cons part template ih =>
    cases part with
    | some chars =>
      simp only [pieces, flatMap_cons, nest_append, ih h, String.toList_ofList]
      rfl
    | none =>
      cases fillings with
      | nil => exact ih h stack
      | cons filling fillings =>
        obtain ⟨hfilling, hothers⟩ := forall_mem_cons.mp h
        rw [pieces, flatMap_cons,
          nest_append_of_eq (nest_of_balanced hfilling.nests stack), ih hothers]
        rfl

/-- A word ends or begins between a part that is set off and the pieces
after it. -/
theorem seam_pieces {part : Option (List Char)} {template : Template}
    (h : setOff (part :: template) = true)
    {fillings : List String} {first : List Char} (hfirst : ∀ chars ∈ part, first = chars) :
    Seam first ((template.pieces fillings).flatMap String.toList) := by
  cases template with
  | nil => exact .inr (by simp [pieces])
  | cons next template =>
    rw [setOff, and_eq_true, or_eq_true, Option.any_eq_true, Option.any_eq_true] at h
    rcases h.1 with ⟨chars, hchars, hends⟩ | ⟨chars, rfl, hstarts⟩
    · obtain rfl := hfirst chars hchars
      rw [endsApart, Option.any_eq_true] at hends
      obtain ⟨c, hc, hbreak⟩ := hends
      refine .inl fun d hd => ?_
      obtain rfl : c = d := some.inj (hc.symm.trans hd)
      simpa using hbreak
    · rw [startsApart, Option.any_eq_true] at hstarts
      obtain ⟨c, hc, hbreak⟩ := hstarts
      refine .inr fun d hd => ?_
      rw [pieces, flatMap_cons, String.toList_ofList, head?_append, hc, some_or] at hd
      obtain rfl : c = d := some.inj hd
      simpa using hbreak

theorem setOff_tail {part template} (h : setOff (part :: template) = true) :
    setOff template = true := by
  cases template with
  | nil => rfl
  | cons next template =>
    rw [setOff, and_eq_true] at h
    exact h.2

/-- Sound fillings bring no words of their own into the fixed parts. -/
theorem covered_pieces {template : Template} (hsetOff : setOff template = true)
    (hparts : ∀ part ∈ template, Covered allowed (part.getD [])) {fillings : List String}
    (h : ∀ filling ∈ fillings, Sound allowed filling) :
    Covered allowed ((template.pieces fillings).flatMap String.toList) := by
  induction template generalizing fillings with
  | nil => exact covered_nil allowed
  | cons part template ih =>
    obtain ⟨hpart, hothers⟩ := forall_mem_cons.mp hparts
    have hrest := fun {fillings} => @ih (setOff_tail hsetOff) hothers fillings
    cases part with
    | some chars =>
      rw [pieces, flatMap_cons, String.toList_ofList]
      exact hpart.append (hrest h) (seam_pieces hsetOff fun _ heq => some.inj heq)
    | none =>
      cases fillings with
      | nil => exact hrest h
      | cons filling fillings =>
        obtain ⟨hfilling, hfillings⟩ := forall_mem_cons.mp h
        rw [pieces, flatMap_cons]
        exact hfilling.covered.append (hrest hfillings) (seam_pieces hsetOff fun _ heq =>
          by cases heq)

/-- **A template that passes the check is sound**, whatever sound texts fill
its holes. -/
theorem sound {opened : List Bracket} {used : List String} (template : Template)
    (fillings : List String) (hused : used ⊆ allowed)
    (hfillings : fillings.Forall (Sound allowed))
    (hcheck : template.check opened used = true) :
    Leaves allowed opened (template.fill fillings) := by
  rw [check, and_eq_true, and_eq_true, beq_iff_eq] at hcheck
  obtain ⟨⟨hnests, hsetOff⟩, hcovers⟩ := hcheck
  have heach := forall_iff_forall_mem.mp hfillings
  constructor
  · rw [toList_fill, nest_pieces template heach, hnests]
  · rw [toList_fill]
    refine covered_pieces hsetOff (fun part hpart item hitem huses => hused ?_) heach
    exact covered_of_covers (all_eq_true.mp hcovers part hpart) item hitem huses

end Filled

end Template
end Xdr.Emit
