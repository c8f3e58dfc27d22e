import Xdr.Proofs.Decl.Identifiers

/-!
# Words of one name

Escaping appends an underscore to a reserved word and leaves every other
word as it is.  So a reserved word and the same word with an underscore
become one name, and no other two words do.

## Main Statements

* `escapeWord_eq_iff` — which words become one name
* `Word.results_eq` — what a word alone is read as
* `Symbols.classify_ne_iff`, `Symbols.declare_again_eq_error` — a
  declaration concerns its own name only
* `Lexer.name_eq_iff_merges` — what two words have to do with each other
-/

namespace Xdr

open Lexer

/-- One of the words is reserved, and the other is the same with an
underscore after it. -/
def Merges (first second : String) : Prop :=
  first ∈ reservedWords ∧ second = first ++ "_" ∨
    second ∈ reservedWords ∧ first = second ++ "_"

instance (first second : String) : Decidable (Merges first second) :=
  inferInstanceAs (Decidable (_ ∨ _))

variable {first second name other : String}

/-- **Escaping makes one name of two words** exactly if they differ by the
underscore that it appends to one of them. -/
theorem escapeWord_eq_iff (hne : first ≠ second) :
    escapeWord first = escapeWord second ↔ Merges first second := by
  constructor
  · intro h
    by_cases hfirst : first ∈ reservedWords
    · by_cases hsecond : second ∈ reservedWords
      · rw [escapeWord_of_mem hfirst, escapeWord_of_mem hsecond] at h
        exact absurd ((String.append_left_inj "_").mp h) hne
      · rw [escapeWord_of_mem hfirst, escapeWord_of_notMem hsecond] at h
        exact .inl ⟨hfirst, h.symm⟩
    · by_cases hsecond : second ∈ reservedWords
      · rw [escapeWord_of_notMem hfirst, escapeWord_of_mem hsecond] at h
        exact .inr ⟨hsecond, h⟩
      · rw [escapeWord_of_notMem hfirst, escapeWord_of_notMem hsecond] at h
        exact absurd h hne
  · rintro (⟨hmem, rfl⟩ | ⟨hmem, rfl⟩)
    · rw [← escapeWord_of_mem hmem, escapeWord_escapeWord]
    · rw [← escapeWord_of_mem hmem, escapeWord_escapeWord]

/-! ### Words as lexemes -/

theorem eq_escapeWord_of_wordLexeme (h : wordLexeme first = .word name) :
    name = escapeWord first := by
  rw [wordLexeme] at h
  split at h
  · cases h
  · exact (Lexeme.word.inj h).symm

/-- **A word alone** is one lexeme. -/
theorem Word.results_eq (h : Word first.toList) (source : String) :
    (ofSource (.ofText source first)).results =
      [.ok ⟨⟨.first, Position.first.past first.toList⟩, wordLexeme first⟩] := by
  have hspells := h.spells
  rw [String.ofList_toList] at hspells
  have hnewline : ∀ next ∈ ['\n'].head?, continuesWord next = false := by
    rintro next ⟨⟩
    decide
  have hends : (wordLexeme first).EndsBefore first.toList ['\n'] := by
    rw [wordLexeme]
    split <;> exact hnewline
  have hproper : (Segment.lexeme first.toList (wordLexeme first)).Proper ['\n'] :=
    ⟨hspells, hends⟩
  exact Source.results_of_segment hproper rfl h.visible source

/-! ### Names in a table -/

namespace Symbols

variable {symbols declared : Symbols} {cls again previous : SymbolClass}

theorem classOf?_declare (h : symbols.declare name cls = .ok declared) :
    symbols.classOf? name = none ∧
      ∀ other, declared.classOf? other = if other = name then some cls
        else symbols.classOf? other := by
  rw [declare] at h
  split at h
  · cases h
  · next hnone =>
    cases h
    exact ⟨hnone, fun other => Table.find?_insert name cls symbols.classes other⟩

theorem declare_eq_error :
    symbols.declare name cls = .error previous ↔ symbols.classOf? name = some previous := by
  rw [declare]
  split
  · next found hfound => simp [hfound]
  · next hnone => simp [hnone]

/-- A declaration changes how its name is read, and no other. -/
theorem classify_ne_iff (h : symbols.declare name cls = .ok declared) (other : String) :
    declared.classify (.word other) ≠ symbols.classify (.word other) ↔ name = other := by
  obtain ⟨hnone, hclass⟩ := classOf?_declare h
  by_cases hsame : name = other
  · subst hsame
    cases cls <;> simp [classify, hclass, hnone]
  · simp [classify, hclass, hsame, Ne.symm hsame]

/-- A declaration stands in the way of another of its name, and of no other.
-/
theorem declare_again_eq_error (h : symbols.declare name cls = .ok declared)
    (other : String) : declared.declare other again = .error previous ↔
      symbols.declare other again = .error previous ∨ name = other ∧ previous = cls := by
  obtain ⟨hnone, hclass⟩ := classOf?_declare h
  rw [declare_eq_error, declare_eq_error, hclass]
  by_cases hsame : name = other
  · subst hsame
    simp [hnone, eq_comm]
  · simp [hsame, Ne.symm hsame]

end Symbols

/-- **Only a reserved word and its escaped form become one name.**  Of two
different words that are no keywords, each alone is read as one name.  The
names are the same exactly if one word is reserved and the other is it with
an underscore after it.  After a declaration of the first name, the second
is read as another token than before in exactly that case, and only then is
its declaration refused although it was not before. -/
theorem Lexer.name_eq_iff_merges (hfirst : Word first.toList) (hsecond : Word second.toList)
    (hname : wordLexeme first = .word name) (hother : wordLexeme second = .word other)
    (hne : first ≠ second) :
    (∀ source,
      (ofSource (.ofText source first)).results =
        [.ok ⟨⟨.first, Position.first.past first.toList⟩, .word name⟩] ∧
      (ofSource (.ofText source second)).results =
        [.ok ⟨⟨.first, Position.first.past second.toList⟩, .word other⟩]) ∧
    (name = other ↔ Merges first second) ∧
    ∀ (symbols declared : Symbols) (cls : SymbolClass),
      symbols.declare name cls = .ok declared →
      (declared.classify (.word other) ≠ symbols.classify (.word other) ↔
        Merges first second) ∧
      ∀ again previous, declared.declare other again = .error previous ↔
        symbols.declare other again = .error previous ∨
        Merges first second ∧ previous = cls := by
  have hmerges : name = other ↔ Merges first second := by
    rw [eq_escapeWord_of_wordLexeme hname, eq_escapeWord_of_wordLexeme hother,
      escapeWord_eq_iff hne]
  refine ⟨fun source => ⟨hname ▸ hfirst.results_eq source,
    hother ▸ hsecond.results_eq source⟩, hmerges, ?_⟩
  intro symbols declared cls hdeclare
  rw [← hmerges]
  exact ⟨Symbols.classify_ne_iff hdeclare other,
    fun _ _ => Symbols.declare_again_eq_error hdeclare other⟩

/-- Two underscores are not what escaping appends. -/
theorem Lexer.name_eq_iff_merges_as :
    ¬ Merges "as" "as__" ∧
      ∃ declared, Symbols.initial.declare "as_" .type = .ok declared ∧
        declared.classify (.word "as__") = .identifier "as__" := by
  have hfirst : Word "as".toList :=
    .mk (c := 'a') (by decide) (List.all_eq_true.mp (by decide : ['s'].all _ = true))
  have hsecond : Word "as__".toList :=
    .mk (c := 'a') (by decide)
      (List.all_eq_true.mp (by decide : ['s', '_', '_'].all _ = true))
  obtain ⟨-, -, hdeclare⟩ :=
    name_eq_iff_merges hfirst hsecond (by decide : wordLexeme "as" = .word "as_")
    (by decide : wordLexeme "as__" = .word "as__") (by decide)
  have hapart : ¬ Merges "as" "as__" := by decide
  refine ⟨hapart, _, rfl, ?_⟩
  exact (not_ne_iff.mp fun hne =>
    hapart ((hdeclare .initial _ .type rfl).1.mp hne)).trans (by decide)

/-- Two words are one name, and the second is refused as declared already. -/
theorem Lexer.one_name_as :
    "as" ≠ "as_" ∧ wordLexeme "as" = .word "as_" ∧ wordLexeme "as_" = .word "as_" ∧
      (Decl.parse .initial (.ofText "names.x" "const as = 1;")).isOk ∧
      (Decl.parse .initial (.ofText "names.x" "const as_ = 2;")).isOk ∧
      (Decl.parse .initial
        (.ofText "names.x" "const as = 1; const as_ = 2;")).map Parsed.decls =
        .error (.syntactic ⟨⟨⟨1, 21⟩, ⟨1, 24⟩⟩, .redeclared "as_"⟩) := by
  decide +kernel

end Xdr
