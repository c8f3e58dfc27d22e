import Xdr.Proofs.Decl.Declared
import Xdr.Proofs.Token.Composition

/-!
# Lines that declare constants

A line with the declaration of a constant in front of a text adds the
lexemes of the declaration to those that the text consists of, and nothing
else.

## Main Statements

* `Source.consistsOf_line` — a line in front of a text
* `Constant.allProper_segments` — a declaration is proper in front of
  anything
* `Constant.consistsOf_before` — any number of declarations in front of a
  text
-/

namespace Xdr

open List Numeral Segment Source Text

/-! ### A line in front of a text -/

/-- A line that is proper in front of anything adds its lexemes to those of
a text. -/
theorem Source.consistsOf_line {line : String} {segments : List Segment}
    (hprintable : Printable line.toList)
    (hchars : segments.flatMap text = line.toList ++ ['\n'])
    (hproper : ∀ rest, AllProper rest → AllProper (segments ++ rest))
    (hfaults : segments.filterMap fault? = []) (name name' text : String) {lexemes} :
    (ofText name (line ++ "\n" ++ text)).ConsistsOf lexemes ↔
      ∃ rest, lexemes = segments.filterMap Segment.lexeme? ++ rest ∧
      (ofText name' text).ConsistsOf rest := by
  -- The segments of the line and those of the text are segments of the whole.
  obtain ⟨others, hothers, hothersProper⟩ :=
    exists_allProper (endsLine_characters (ofText name' text))
  have hwhole : (ofText name (line ++ "\n" ++ text)).characters =
      (segments ++ others).flatMap Segment.text := by
    rw [characters_ofText_line hprintable name name', flatMap_append, hchars, hothers]
    simp
  have hread := @consistsOf_iff_of_segments name _ lexemes _ (readable_ofText name _) hwhole
    (hproper others hothersProper)
  rw [filterMap_append, filterMap_append, hfaults, nil_append] at hread
  refine hread.trans ?_
  have hreadable := readable_ofText name' text
  constructor
  · rintro ⟨hnone, rfl⟩
    exact ⟨_, rfl, hreadable, others, hothers, hothersProper, hnone, rfl⟩
  · rintro ⟨rest, rfl, hrest⟩
    obtain ⟨hnone, rfl⟩ :=
      (consistsOf_iff_of_segments hreadable hothers hothersProper).mp hrest
    exact ⟨hnone, rfl⟩

/-! ### Declarations of constants -/

/-- A name and an integer that a source may declare as a constant, as they
are spelled. -/
structure Constant where
  name : String
  digits : String
  word : Word name.toList
  notKeyword : ∀ keyword : Keyword, name.toList.map Char.toLower ≠ keyword.spelling.toList
  notTruth : name ≠ "TRUE" ∧ name ≠ "FALSE"
  number : Number digits.toList
  inRange : check digits.toList = none

namespace Constant

/-- The declaration as a line. -/
def line (constant : Constant) : String :=
  "const " ++ constant.name ++ " = " ++ constant.digits ++ ";"

/-- Declarations of constants in front of a text. -/
def before (constants : List Constant) (text : String) : String :=
  constants.foldr (fun constant text => constant.line ++ "\n" ++ text) text

/-- The lexemes of the declaration. -/
def lexemes (constant : Constant) : List Lexeme :=
  Grammar.constLexemes (escapeWord constant.name) constant.digits ++ [.mark .semicolon]

/-- The segments of the line. -/
def segments (constant : Constant) : List Segment :=
  [.lexeme "const".toList (.keyword .const), .blank ' ',
    .lexeme constant.name.toList (.word (escapeWord constant.name)), .blank ' ',
    .lexeme ['='] (.mark .assign), .blank ' ',
    .lexeme constant.digits.toList (.literal constant.digits),
    .lexeme [';'] (.mark .semicolon), .blank '\n']

variable (constant : Constant)

theorem printable_line : Printable constant.line.toList := by
  intro c hc
  simp only [line, String.toList_append, mem_append] at hc
  obtain (((hc | hc) | hc) | hc) | hc := hc
  · exact printable_of_all (by decide) c hc
  · exact (constant.word.visible c hc).imp_left Nat.le_of_succ_le
  · exact printable_of_all (by decide) c hc
  · exact (constant.number.visible c hc).imp_left Nat.le_of_succ_le
  · exact printable_of_all (by decide) c hc

theorem flatMap_segments :
    constant.segments.flatMap text = constant.line.toList ++ ['\n'] := by
  simp [segments, text, line]

theorem spells_name : Spells constant.name.toList (.word (escapeWord constant.name)) := by
  have hspells := Spells.word constant.word constant.notKeyword
  rwa [String.ofList_toList] at hspells

theorem spells_digits : Spells constant.digits.toList (.literal constant.digits) := by
  have hspells := Spells.literal constant.number constant.inRange
  rwa [String.ofList_toList] at hspells

theorem spells_const : Spells "const".toList (.keyword .const) :=
  .keyword (.mk (by decide) (all_eq_true.mp (by decide))) (by decide)

/-- The declaration is proper in front of anything. -/
theorem allProper_segments {rest} (h : AllProper rest) :
    AllProper (constant.segments ++ rest) := by
  have hsemicolon : continues constant.digits.toList ';' = false := by
    simp [continues, isDigitIn, digitValue?]
  refine .cons ⟨spells_const, ?_⟩ (.cons rfl (.cons ⟨constant.spells_name, ?_⟩ (.cons rfl
    (.cons ⟨.mark .assign, ?_⟩ (.cons rfl (.cons ⟨constant.spells_digits, ?_⟩
      (.cons ⟨.mark .semicolon, ?_⟩ (.cons rfl h))))))))
  · rintro next ⟨⟩
    decide
  · rintro next ⟨⟩
    decide
  · rintro (h | h) <;> cases h
  · rintro next ⟨⟩
    exact hsemicolon
  · rintro (h | h) <;> cases h

/-- **Declarations of constants in front of a text** add their lexemes to
those of the text. -/
theorem consistsOf_before (constants : List Constant) (name name' text : String)
    {lexemes : List Lexeme} : (ofText name (before constants text)).ConsistsOf lexemes ↔
      ∃ rest, lexemes = constants.flatMap Constant.lexemes ++ rest ∧
        (ofText name' text).ConsistsOf rest := by
  induction constants generalizing name lexemes with
  | nil =>
    constructor
    · exact fun h => ⟨lexemes, rfl, h⟩
    · rintro ⟨_, rfl, h⟩
      exact h
  | cons constant constants ih =>
    have hline : (ofText name (before (constant :: constants) text)).ConsistsOf lexemes ↔
        ∃ rest, lexemes = constant.lexemes ++ rest ∧
          (ofText name (before constants text)).ConsistsOf rest :=
      consistsOf_line constant.printable_line constant.flatMap_segments
        (fun _ => constant.allProper_segments) rfl name name _
    simp only [hline, ih, flatMap_cons, append_assoc]
    constructor
    · rintro ⟨_, rfl, rest, rfl, hrest⟩
      exact ⟨rest, rfl, hrest⟩
    · rintro ⟨rest, rfl, hrest⟩
      exact ⟨_, rfl, rest, rfl, hrest⟩

end Constant
end Xdr
