import Xdr.Proofs.Bundle.Grouping
import Xdr.Proofs.Bundle.Literals
import Xdr.Proofs.Emit.Strokes
import Xdr.Proofs.Emit.Wording

/-!
# Names and literals in emitted code

What emitted code takes over from a source are its names and its literals.
A name is a word that is no item of the runtime, since a word that is one is
escaped when it is read; a literal is a number, perhaps with a sign.
Nothing else gets into a bundle, from the text or from definitions outside
it, so nothing in a bundle can be taken for a bracket or for an item of the
runtime.

## Main Statements

* `escapeWord_notMem_runtimeItems` — an escaped word is no item of the
  runtime
* `Emit.sound_escapeWord`, `Emit.sound_canonical`, `Emit.sound_toString` —
  names, literals and numbers are sound
* `Bundle.inert_of_parse` — the bundle of a source is inert
-/

namespace Xdr

open Bool Define Emit List Numeral

/-! ### Names and numbers -/

/-- Items of the runtime are reserved words, and none of them ends in an
underscore. -/
theorem escapeWord_notMem_runtimeItems (word : String) : escapeWord word ∉ runtimeItems := by
  have hreserved : (runtimeItems.all fun item =>
      reservedWords.contains item && item.toList.getLast? != some '_') = true := by decide
  intro hmem
  obtain ⟨hitem, hend⟩ := and_eq_true_iff.mp (all_eq_true.mp hreserved _ hmem)
  rw [escapeWord] at hitem hend
  split at hitem
  · next hescaped =>
    rw [if_pos hescaped, String.toList_append] at hend
    simp at hend
  · next hplain => exact hplain hitem

namespace Emit

variable {chars : List Char}

theorem sound_escapeWord (h : Word chars) : Sound [] (escapeWord (String.ofList chars)) := by
  refine sound_word (fun c hc => ?_) fun hmem =>
    absurd hmem (escapeWord_notMem_runtimeItems _)
  have hword := h.escape
  generalize (escapeWord (String.ofList chars)).toList = escaped at hword hc
  cases hword with
  | mk hfirst hrest =>
    rcases mem_cons.mp hc with rfl | hc
    · rw [Lexer.beginsWord, or_eq_true] at hfirst
      rw [Lexer.continuesWord, or_eq_true, Char.isAlphanum, or_eq_true]
      exact hfirst.imp_left .inl
    · exact hrest c hc

theorem inNumeral_of_isDigitIn {base} (hbase : base ≤ 16) {c}
    (h : isDigitIn base c = true) : inNumeral c = true := by
  obtain ⟨value, hvalue, hlt⟩ := isDigitIn_eq_true.mp h
  rw [inNumeral, or_eq_true]
  exact .inr (isDigitIn_eq_true.mpr ⟨value, hvalue, hlt.trans_le hbase⟩)

theorem inNumeral_of_isNumeral (h : isNumeral chars = true) :
    ∀ c ∈ (splitSign chars).2, inNumeral c = true := by
  rw [isNumeral] at h
  cases hhex : hexBody? (splitSign chars).2 with
  | some hex =>
    simp only [hhex, and_eq_true, all_eq_true] at h
    have hbody := fun c hc => inNumeral_of_isDigitIn (Nat.le_refl 16) (h.2 c hc)
    rcases hexBody?_eq_some hhex with hdigits | hdigits
    · rw [hdigits]
      exact forall_mem_cons.mpr ⟨rfl, forall_mem_cons.mpr ⟨rfl, hbody⟩⟩
    · rw [hdigits]
      exact forall_mem_cons.mpr ⟨rfl, forall_mem_cons.mpr ⟨rfl, hbody⟩⟩
  | none =>
    simp only [hhex, and_eq_true, all_eq_true] at h
    exact fun c hc => inNumeral_of_isDigitIn (by decide) (h.2 c hc)

theorem mem_spelling {sign digits c} (h : c ∈ spelling sign digits) :
    c ∈ sign ∨ c ∈ digits ∨ c ∈ ['0', 'x', 'o'] := by
  rw [spelling.eq_def] at h
  split at h
  · simp only [mem_append, mem_cons, not_mem_nil] at h ⊢
    tauto
  · split at h
    · split at h
      · simp_all
      · have hrest : c ∈ digits.dropWhile (· == '0') → c ∈ digits :=
          fun hc => (dropWhile_suffix _).subset hc
        simp only [mem_append, mem_cons, not_mem_nil] at h ⊢
        tauto
    · exact (mem_append.mp h).imp_right .inl

/-- **The canonical spelling of a numeral is sound.** -/
theorem sound_canonical (h : isNumeral chars = true) :
    Sound [] (String.ofList (canonical chars)) := by
  have hdigits := inNumeral_of_isNumeral h
  refine sound_numeral fun c hc => ?_
  rw [String.toList_ofList, canonical_eq_spelling] at hc
  · rcases mem_spelling hc with hsign | hdigit | hmark
    · cases hnegative : (splitSign chars).1 <;> rw [hnegative] at hsign
      · cases hsign
      · rw [mem_singleton.mp hsign]
        rfl
    · exact hdigits c hdigit
    · have hmarks : ['0', 'x', 'o'].all inNumeral = true := by decide
      exact all_eq_true.mp hmarks c hmark
  · intro hminus
    obtain ⟨digits, hminus⟩ := head?_eq_some_iff.mp hminus
    rw [isNumeral, hminus] at h
    simp [hexBody?, isDigitIn, digitValue?] at h

/-- The text of a number is sound. -/
theorem sound_toString (number : Int) : Sound [] (toString number) := by
  have hrepr : ∀ n, ∀ c ∈ (Nat.repr n).toList, inNumeral c = true := by
    intro n c hc
    rw [Nat.repr, String.toList_ofList] at hc
    have hdigit := Nat.isDigit_of_mem_toDigits (by decide) (by decide) hc
    rw [← isDigitIn_ten] at hdigit
    exact inNumeral_of_isDigitIn (by decide) hdigit
  refine sound_numeral ?_
  cases number with
  | ofNat n => exact hrepr n
  | negSucc n =>
    show ∀ c ∈ ("-" ++ Nat.repr (n + 1)).toList, inNumeral c = true
    rw [String.toList_append]
    exact forall_mem_cons.mpr ⟨rfl, hrepr (n + 1)⟩

end Emit

/-! ### Inert names and literals -/

/-- A name or a literal that brings neither brackets nor items of the
runtime with it. -/
def Lexeme.Inert : Lexeme → Prop
  | .word name => Sound [] name
  | .literal digits => Sound [] digits
  | .keyword _ => True
  | .mark _ => True

/-- A lexeme with its literal in canonical spelling. -/
def Lexeme.canonical : Lexeme → Lexeme
  | .literal digits => .literal (String.ofList (Numeral.canonical digits.toList))
  | lexeme => lexeme

/-- What a text spells is inert, once its literals are canonical. -/
theorem inert_of_spells {text lexeme} (h : Spells text lexeme) : lexeme.canonical.Inert := by
  cases h with
  | keyword | mark => trivial
  | word hword => exact sound_escapeWord hword
  | literal _ hcheck =>
    rw [Lexeme.canonical, Lexeme.Inert, String.toList_ofList]
    exact sound_canonical (isNumeral_of_check hcheck)

/-- Every name and literal in a bundle is inert. -/
def Bundle.Inert (bundle : Bundle) : Prop :=
  ∀ kind, ∀ decl ∈ bundle.group kind, ∀ lexeme ∈ decl.lexemes, lexeme.Inert

theorem IntExpr.lexeme_canonical (value : IntExpr) :
    value.canonical.lexeme = value.lexeme.canonical := by
  cases value <;> rfl

theorem TypeRef.map_canonical_lexemes (type : TypeRef) :
    type.lexemes.map Lexeme.canonical = type.lexemes := by
  cases type <;> rfl

theorem Form.lexemes_mapValues (form : Form) :
    (form.mapValues IntExpr.canonical).lexemes = form.lexemes.map Lexeme.canonical := by
  simp only [Form.lexemes, Form.lengths_mapValues, map_map, Function.comp_def,
    IntExpr.lexeme_canonical]

theorem Case.lexemes_mapValues (case : Case) :
    (case.mapValues IntExpr.canonical).lexemes = case.lexemes.map Lexeme.canonical := by
  have hlabel : (case.label.mapValues IntExpr.canonical).lexemes =
    case.label.lexemes.map Lexeme.canonical := by
    cases case.label with
    | otherwise => rfl
    | value number => exact congrArg ([·]) (IntExpr.lexeme_canonical number)
  simp only [Case.lexemes, Case.mapValues, hlabel, Form.lexemes_mapValues, map_append,
    map_flatMap, map_map, TypeRef.map_canonical_lexemes, Function.comp_def, Lexeme.canonical]

/-- Canonical integers make canonical lexemes. -/
theorem Decl.lexemes_mapValues (decl : Decl) :
    (decl.mapValues IntExpr.canonical).lexemes = decl.lexemes.map Lexeme.canonical := by
  cases decl <;> simp only [mapValues, ConstDecl.mapValues, EnumDecl.mapValues,
    StructDecl.mapValues, UnionDecl.mapValues, ProgramDecl.mapValues, Decl.lexemes,
    EnumMember.lexemes, EnumMember.mapValues, Field.lexemes, Field.mapValues,
    ProcDecl.lexemes,
    ProcDecl.mapValues, VersionDecl.lexemes, VersionDecl.mapValues, map_append, map_cons,
    map_nil, flatMap_map, map_flatMap, TypeRef.map_canonical_lexemes,
    Form.lexemes_mapValues, Case.lexemes_mapValues, IntExpr.lexeme_canonical,
    Lexeme.canonical]

theorem DefineValue.isNumeral_of_ofSpelling {chars digits}
    (h : DefineValue.ofSpelling chars = .int digits) :
    isNumeral digits.toList = true := by
  rw [DefineValue.ofSpelling] at h
  split at h
  · next hnumeral =>
    cases h
    rwa [String.toList_ofList]
  · cases h

/-- What a definition from outside is read as. -/
theorem Define.word_of_parse {definition define} (h : parse definition = .ok define) :
    Word define.name.toList ∧ ∀ digits, define.value = .int digits →
      isNumeral digits.toList = true := by
  rw [parse] at h
  split at h
  · cases h
  · split at h
    · next hname =>
      cases h
      constructor
      · rw [String.toList_ofList]
        exact isName_eq_true.mp hname
      · exact fun digits hvalue => DefineValue.isNumeral_of_ofSpelling hvalue
    · cases h

/-- The constants that definitions from outside become are inert, once they
are canonical. -/
theorem Define.inert_of_const? {definition define} (h : parse definition = .ok define)
    {const} (hconst : define.const? = some const) :
    ∀ lexeme ∈ (Decl.const const).lexemes, lexeme.canonical.Inert := by
  obtain ⟨hword, hnumeral⟩ := word_of_parse h
  rw [const?] at hconst
  split at hconst
  · next digits hvalue =>
    cases hconst
    have hname := sound_escapeWord hword
    rw [String.ofList_toList] at hname
    have hdigits := sound_canonical (hnumeral digits hvalue)
    exact forall_mem_cons.mpr ⟨hname, forall_mem_singleton.mpr hdigits⟩
  · cases hconst

/-- **The bundle of a source is inert**, whatever integers are defined from
outside. -/
theorem Bundle.inert_of_parse {definitions : List String} {defines : List Define}
    (hdefines : parseAll definitions = .ok defines) {symbols : Symbols} {name : String}
    {bytes : List UInt8}
    {parsed : Parsed} (hparse : Decl.parse symbols (.ofBytes name bytes) = .ok parsed) :
    (Bundle.ofDecls parsed.decls defines).Inert := by
  obtain ⟨lexemes, hconsists, hfile, -⟩ := Decl.parse_eq_ok_iff_consistsOf.mp hparse
  -- A declaration of the bundle is one of the source or of the definitions, with canonical
  -- integers.
  have hgroup : ∀ kind, (ofDecls parsed.decls defines).group kind =
      (outside parsed.decls defines kind ++ kind.among parsed.decls).map
        (Decl.mapValues IntExpr.canonical) :=
    fun kind => Decl.Respelled.unique_list (respelled_group parsed.decls defines kind)
      (forall₂_map_right_iff.mpr (forall₂_same.mpr fun other _ => other.respelled_mapValues))
  intro kind decl hdecl
  rw [hgroup] at hdecl
  obtain ⟨other, hother, rfl⟩ := mem_map.mp hdecl
  rw [Decl.lexemes_mapValues]
  refine forall_mem_map.mpr fun lexeme hlexeme => ?_
  rcases mem_append.mp hother with houtside | hamong
  · cases kind with
    | const =>
      obtain ⟨const, hconst, rfl⟩ := mem_map.mp houtside
      obtain ⟨define, hdefine, hsome⟩ := mem_filterMap.mp (mem_of_mem_filter hconst)
      obtain ⟨definition, -, hdefinition⟩ := exists_of_mem_mapM hdefines define hdefine
      exact inert_of_const? hdefinition hsome lexeme hlexeme
    | enum | struct | union | typeDef | program => cases houtside
  · obtain ⟨text, hspells⟩ := hconsists.exists_spells lexeme
      (hfile.lexemes_subset (DeclKind.mem_among.mp hamong).1 hlexeme)
    exact inert_of_spells hspells

end Xdr
