import Xdr.Proofs.Bundle.Defines
import Xdr.Proofs.Decl.Lexemes

/-!
# The identifiers of declarations

Whatever a declaration names, it names by an identifier that neither the
notation nor the emitted code uses itself.  The identifier is a word of the
source, with an underscore where the word is reserved.

## Main Statements

* `escapeWord_notMem`, `escapeWord_escapeWord` — an escaped word is not
  reserved, and escaping it again changes nothing
* `exists_escapeWord_eq` — as many underscores are appended as are needed
* `Decl.identifier_of_parse` — every name in the declarations of a source
-/

namespace Xdr

open List String

/-! ### Reserved words -/

/-- No reserved word ends with an underscore. -/
theorem getLast?_of_mem_reservedWords {word} (h : word ∈ reservedWords) :
    word.toList.getLast? ≠ some '_' :=
  of_decide_eq_true (all_eq_true.mp
    (by decide : reservedWords.all fun word => decide (word.toList.getLast? ≠ some '_')) word
    h)

theorem escapeWord_of_mem {word} (h : word ∈ reservedWords) : escapeWord word = word ++ "_" :=
  if_pos (contains_iff_mem.mpr h)

theorem escapeWord_of_notMem {word} (h : word ∉ reservedWords) : escapeWord word = word :=
  if_neg fun hmem => h (contains_iff_mem.mp hmem)

theorem escapeWord_notMem (word : String) : escapeWord word ∉ reservedWords := by
  by_cases h : word ∈ reservedWords
  · rw [escapeWord_of_mem h]
    exact fun hmem => getLast?_of_mem_reservedWords hmem (by simp)
  · rwa [escapeWord_of_notMem h]

theorem escapeWord_escapeWord (word : String) :
    escapeWord (escapeWord word) = escapeWord word :=
  escapeWord_of_notMem (escapeWord_notMem word)

/-- A word with some underscores after it. -/
def underscored (word : String) (count : Nat) : String :=
  word ++ ofList (replicate count '_')

/-- As many underscores are appended as are needed to leave the reserved
words. -/
theorem exists_escapeWord_eq (word : String) :
    ∃ count, escapeWord word = underscored word count ∧
      ∀ fewer < count, underscored word fewer ∈ reservedWords := by
  have hnone : underscored word 0 = word := append_empty
  by_cases h : word ∈ reservedWords
  · refine ⟨1, escapeWord_of_mem h, fun fewer hfewer => ?_⟩
    rwa [Nat.lt_one_iff.mp hfewer, hnone]
  · exact ⟨0, by rw [escapeWord_of_notMem h, hnone],
      fun _ hfewer => absurd hfewer (Nat.not_lt_zero _)⟩

/-! ### Identifiers -/

/-- A letter or an underscore. -/
def IsLetter (c : Char) : Prop :=
  'A' ≤ c ∧ c ≤ 'Z' ∨ 'a' ≤ c ∧ c ≤ 'z' ∨ c = '_'

/-- Letters, digits and underscores, of which the first is no digit. -/
def IsIdentifier (text : String) : Prop :=
  ∃ first rest, text.toList = first :: rest ∧ IsLetter first ∧ ∀ c ∈ rest, IsLetter c ∨
    '0' ≤ c ∧ c ≤ '9'

theorem isLetter_of_beginsWord {c} (h : Lexer.beginsWord c = true) : IsLetter c := by
  rcases (beginsWord_iff c).mp h with hupper | hlower | hunderscore
  · exact .inl hupper
  · exact .inr (.inl hlower)
  · exact .inr (.inr (Char.toNat_inj.mp hunderscore))

theorem Word.isIdentifier {text : String} (h : Word text.toList) : IsIdentifier text := by
  generalize hchars : text.toList = chars at h
  obtain ⟨hfirst, hrest⟩ := h
  refine ⟨_, _, hchars, isLetter_of_beginsWord hfirst, fun c hc => ?_⟩
  have hcontinues : Lexer.beginsWord c = true ∨ c.isDigit = true := by
    have hword := hrest c hc
    simp only [Lexer.continuesWord, Lexer.beginsWord, Char.isAlphanum,
      Bool.or_eq_true] at hword ⊢
    rcases hword with (halpha | hdigit) | hunderscore
    · exact .inl (.inl halpha)
    · exact .inr hdigit
    · exact .inl (.inr hunderscore)
  exact hcontinues.imp isLetter_of_beginsWord (isDigit_iff c).mp

/-- A word of a source: one of the segments that the source consists of. -/
def Source.HasWord (source : Source) (word : String) : Prop :=
  ∃ segments : List Segment, source.characters = segments.flatMap Segment.text ∧
    Segment.AllProper segments ∧ .lexeme word.toList (.word (escapeWord word)) ∈ segments

/-- A name among the lexemes of a source is a word of the source, escaped. -/
theorem Source.ConsistsOf.exists_hasWord {source : Source} {lexemes}
    (h : source.ConsistsOf lexemes) {name} (hmem : .word name ∈ lexemes) :
    ∃ word, source.HasWord word ∧ name = escapeWord word := by
  obtain ⟨-, segments, hchars, hproper, -, rfl⟩ := h
  obtain ⟨segment, hsegment, hlexeme⟩ := mem_filterMap.mp hmem
  cases segment with
  | blank | comment | error => cases hlexeme
  | lexeme text found =>
    cases hlexeme
    cases hproper.spells hsegment with
    | word =>
      refine ⟨ofList text, ⟨_, hchars, hproper, ?_⟩, rfl⟩
      rw [toList_ofList]
      exact hsegment

/-- **Identifiers are safe.**  Every name in the declarations of a source
that can be parsed, whatever names are known before it, is an identifier, no
keyword in any case of its letters, and not reserved.  It is a word of the
source, followed by as few underscores as keep it from being reserved. -/
theorem Decl.identifier_of_parse {symbols : Symbols} {name : String} {bytes : List UInt8}
    {parsed : Parsed} (h : Decl.parse symbols (.ofBytes name bytes) = .ok parsed)
    {decl : Decl} (hdecl : decl ∈ parsed.decls) {identifier : String}
    (hmem : .word identifier ∈ decl.lexemes) :
    IsIdentifier identifier ∧
    (∀ keyword : Keyword, identifier.toList.map Char.toLower ≠ keyword.spelling.toList) ∧
    identifier ∉ reservedWords ∧
    ∃ word, (Source.ofBytes name bytes).HasWord word ∧ identifier = escapeWord word ∧
      escapeWord identifier = identifier ∧
      ∃ count, identifier = underscored word count ∧
        ∀ fewer < count, underscored word fewer ∈ reservedWords := by
  obtain ⟨lexemes, hconsists, hfile, -⟩ := parse_eq_ok_iff_consistsOf.mp h
  have hlexeme := hfile.lexemes_subset hdecl hmem
  have hname : IsName identifier := hconsists.exists_spells _ hlexeme
  obtain ⟨word, hword, rfl⟩ := hconsists.exists_hasWord hlexeme
  exact ⟨hname.word.isIdentifier, hname.map_toLower_ne, escapeWord_notMem word, word, hword,
    rfl, escapeWord_escapeWord word, exists_escapeWord_eq word⟩

/-- A structure whose name and field are reserved, and whose type is
declared before it. -/
def reservedText : String :=
  "typedef int raw; struct Self \x7b raw type<3>; \x7d;"

theorem Decl.identifier_of_parse_reserved :
    ∃ parsed, Decl.parse .initial (.ofText "names.x" reservedText) = .ok parsed ∧
      parsed.decls = [.typeDef ⟨"raw_", .int, .plain⟩,
        .struct ⟨"Self_", [⟨"type_", .named "raw_", .array (some (.literal "3")) false⟩]⟩] ∧
      IsIdentifier "Self_" ∧ "Self_" ∉ reservedWords ∧
      ∃ word, (Source.ofText "names.x" reservedText).HasWord word ∧
        "Self_" = escapeWord word := by
  have hread :
    (Decl.parse .initial (.ofText "names.x" reservedText)).toOption.map Parsed.decls =
      some [.typeDef ⟨"raw_", .int, .plain⟩,
        .struct ⟨"Self_", [⟨"type_", .named "raw_",
          .array (some (.literal "3")) false⟩]⟩] := by decide +kernel
  obtain ⟨parsed, hparse, hdecls⟩ := Decl.exists_parsed hread
  have hmem : .struct ⟨"Self_",
    [⟨"type_", .named "raw_", .array (some (.literal "3")) false⟩]⟩ ∈ parsed.decls := by
    rw [hdecls]
    simp
  obtain ⟨hidentifier, -, hreserved, word, hword, hescaped, -⟩ :=
    Decl.identifier_of_parse hparse hmem (List.mem_cons_self : Lexeme.word "Self_" ∈ _)
  exact ⟨parsed, hparse, hdecls, hidentifier, hreserved, word, hword, hescaped⟩

end Xdr
