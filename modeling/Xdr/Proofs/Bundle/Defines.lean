import Xdr.Compile
import Xdr.Proofs.Decl.Reader
import Xdr.Proofs.Decl.Known
import Xdr.Proofs.Token.Composition
import Xdr.Proofs.Token.Constant

/-!
# Integers from outside

An integer that is defined from outside does what a declaration of the
constant in front of the source does.  The two ways have little in common: a
definition is read by rules of its own, goes into the table of names before
the parser starts and becomes a constant of the bundle at its end, while a
declaration goes the way of any other.

## Main Statements

* `Constant.parse_definition` — a definition is read as what it is
* `Constant.ofDefines_eq_foldl` — the table of names is the same both ways
* `Constant.file_before_iff` — declarations in front of a file can be taken
  off
* `Constant.ofDecls_before` — the bundle is the same both ways
* `Compile.bundle_defines_iff_declared` — bundles and emitted code

## Design Notes

A definition is dropped from a bundle if the source declares its name.  For
an integer that never happens: its name is known as a constant from the
start, so nothing can bear it (`Grammar.File.name_ne_of_constant`).
-/

namespace Xdr

open Xdr.Bundle Constant Decl Define Grammar List Source Symbols Text

/-! ### Definitions -/

namespace Numeral

theorem isNumeral_of_checked {cs n} (h : checked? (splitSign cs).2 = some n) :
    isNumeral cs = true := by
  unfold isNumeral
  rcases checked?_eq_some.mp h with ⟨hex, hhex, hne, hdigits, -⟩ | ⟨hhex, hne, hdigits, -⟩
  · simpa [hhex, hne] using hdigits
  · simpa [hhex, hne] using hdigits

/-- A literal that passes the check is an integer for a definition too. -/
theorem isNumeral_of_check {cs} (h : check cs = none) : isNumeral cs = true := by
  obtain ⟨n, hn, -⟩ := exists_checked h
  exact isNumeral_of_checked hn

end Numeral

theorem Text.trim_of_visible {chars} (h : ∀ c ∈ chars, 33 ≤ c.toNat ∧ c.toNat ≤ 126) :
    trim chars = chars := by
  have hdrop : ∀ list : List Char, (∀ c ∈ list, c ∈ chars) →
    list.dropWhile isBlank = list := by
    rintro (_ | ⟨c, list⟩) hlist
    · rfl
    · have hvisible := isBlank_eq_false (h c (hlist c mem_cons_self))
      exact dropWhile_cons_of_neg (by simp [hvisible])
  rw [trim, hdrop chars fun _ hc => hc, hdrop chars.reverse fun _ hc => mem_reverse.mp hc,
    reverse_reverse]

/-- Only blanks are taken off a text. -/
theorem Text.mem_trim {chars c} (h : c ∈ chars) (hc : isBlank c = false) :
    c ∈ trim chars := by
  have hdrop : ∀ list : List Char, c ∈ list → c ∈ list.dropWhile isBlank := by
    intro list hmem
    rw [← takeWhile_append_dropWhile (p := isBlank) (l := list)] at hmem
    rcases mem_append.mp hmem with hfront | hback
    · exact absurd (mem_takeWhile_imp hfront) (by simp [hc])
    · exact hback
  exact mem_reverse.mpr (hdrop _ (mem_reverse.mpr (hdrop _ h)))

namespace Define

theorem isName_eq_true {chars} : isName chars = true ↔ Word chars := by
  constructor
  · intro h
    cases chars with
    | nil => cases h
    | cons c chars =>
      rw [isName, Bool.and_eq_true] at h
      exact .mk h.1 (all_eq_true.mp h.2)
  · rintro ⟨hfirst, hrest⟩
    rw [isName, Bool.and_eq_true]
    exact ⟨hfirst, all_eq_true.mpr hrest⟩

theorem assign_notMem_of_word {chars} (h : Word chars) : '=' ∉ chars := by
  obtain ⟨hfirst, hrest⟩ := h
  intro hmem
  rcases mem_cons.mp hmem with rfl | hmem
  · exact absurd hfirst (by decide)
  · exact absurd (hrest _ hmem) (by decide)

/-- **A name and a value** are read without the blanks around them. -/
theorem parse_assign {name : String} (h : Word (trim name.toList)) (text : String) :
    parse (name ++ "=" ++ text) =
      .ok ⟨String.ofList (trim name.toList), .ofSpelling (trim text.toList)⟩ := by
  have hchars : (name ++ "=" ++ text).toList = name.toList ++ '=' :: text.toList := by simp
  have hname : ∀ c ∈ name.toList, (c != '=') = true := by
    intro c hc
    rw [bne_iff_ne]
    rintro rfl
    exact assign_notMem_of_word h (mem_trim hc rfl)
  have hword : ¬ (trim name.toList).isEmpty = true := by
    rw [List.isEmpty_iff]
    exact h.spells.ne_nil
  rw [parse, hchars, takeWhile_append_of_pos hname, dropWhile_append_of_pos hname]
  simp only [bne_self_eq_false, Bool.false_eq_true, not_false_eq_true, takeWhile_cons_of_neg,
    dropWhile_cons_of_neg, append_nil, isName_eq_true.mpr h, if_true, if_neg hword]

end Define

namespace Constant

variable {constants : List Constant} {decls : List Decl}

/-- The constant as it is defined from outside. -/
def definition (constant : Constant) : String :=
  constant.name ++ "=" ++ constant.digits

/-- What the definition is read as. -/
def define (constant : Constant) : Define :=
  ⟨constant.name, .int constant.digits⟩

/-- What the declaration is read as. -/
def decl (constant : Constant) : Decl :=
  .const ⟨escapeWord constant.name, .literal constant.digits⟩

/-- **A definition is read as what it is.** -/
theorem parse_definition (constant : Constant) :
    parse constant.definition = .ok constant.define := by
  have hname := trim_of_visible constant.word.visible
  rw [definition, parse_assign (hname.symm ▸ constant.word), hname,
    trim_of_visible constant.number.visible, DefineValue.ofSpelling,
    Numeral.isNumeral_of_check constant.inRange, if_pos rfl, String.ofList_toList,
    String.ofList_toList]
  rfl

theorem parseAll_definitions (constants : List Constant) :
    parseAll (constants.map definition) = .ok (constants.map define) := by
  rw [parseAll, mapM_map]
  induction constants with
  | nil => rfl
  | cons constant constants ih =>
    rw [mapM_cons, Function.comp_apply, parse_definition, ih]
    rfl

/-! ### Names -/

/-- No constant is called like a truth value. -/
theorem classOf?_initial (constant : Constant) :
    initial.classOf? (escapeWord constant.name) = none := by
  have htrue := escapeWord_ne constant.notTruth.1 (by decide)
  have hfalse := escapeWord_ne constant.notTruth.2 (by decide)
  rw [Symbols.classOf?_initial, if_neg (by simp [htrue, hfalse])]

/-- The table of names is the same, whether constants are defined or
declared. -/
theorem ofDefines_eq_foldl (constants : List Constant) :
    ofDefines (constants.map define) = (constants.map decl).foldl after .initial := by
  rw [ofDefines, foldl_map, foldl_map]
  rfl

theorem classOf?_ofDefines {constant} (h : constant ∈ constants) :
    (ofDefines (constants.map define)).classOf? (escapeWord constant.name) =
      some .constant := by
  rw [Symbols.classOf?_ofDefines, if_pos]
  refine mem_append_right _ (mem_filterMap.mpr ⟨constant.define, mem_map_of_mem h, rfl⟩)

/-- **Declarations in front of a file** can be taken off, if something
follows them. -/
theorem file_before_iff {symbols : Symbols} {rest : List Lexeme}
    (hdistinct : (constants.map fun constant => escapeWord constant.name).Nodup)
    (hnew : ∀ constant ∈ constants, symbols.classOf? (escapeWord constant.name) = none)
    (hrest : rest ≠ []) : File symbols decls (constants.flatMap lexemes ++ rest) ↔
      ∃ others, decls = constants.map decl ++ others ∧
        File ((constants.map decl).foldl after symbols) others rest := by
  induction constants generalizing symbols decls with
  | nil => simp
  | cons constant constants ih =>
    rw [map_cons, nodup_cons] at hdistinct
    have hnew' : ∀ other ∈ constants,
        (symbols.after constant.decl).classOf? (escapeWord other.name) = none := by
      intro other hother
      have hne : constant.decl.name ≠ escapeWord other.name := fun heq =>
        hdistinct.1 (mem_map.mpr ⟨other, hother, heq.symm⟩)
      rw [classOf?_after_of_ne hne]
      exact hnew other (mem_cons_of_mem _ hother)
    have hmore : constants.flatMap lexemes ++ rest ≠ [] :=
      append_ne_nil_of_right_ne_nil _ hrest
    have hsplit : (constant :: constants).flatMap lexemes ++ rest =
        constLexemes (escapeWord constant.name) constant.digits ++
          .mark .semicolon :: (constants.flatMap lexemes ++ rest) := by
      simp [lexemes]
    rw [hsplit, file_const_iff hmore]
    have hfirst := hnew constant mem_cons_self
    constructor
    · rintro ⟨-, others, rfl, hothers⟩
      obtain ⟨more, rfl, hfile⟩ := (ih hdistinct.2 hnew').mp hothers
      exact ⟨more, rfl, hfile⟩
    · rintro ⟨others, rfl, hothers⟩
      exact ⟨hfirst, _, rfl, (ih hdistinct.2 hnew').mpr ⟨others, rfl, hothers⟩⟩

/-! ### Bundles -/

/-- Constants whose names nothing bears become constants of the bundle. -/
theorem outsideConsts_define
    (h : ∀ constant ∈ constants, ∀ decl ∈ decls, decl.name ≠ escapeWord constant.name) :
    outsideConsts decls (constants.map define) =
      constants.map fun constant => ⟨escapeWord constant.name, .literal constant.digits⟩ := by
  rw [outsideConsts, filterMap_map, ← filterMap_eq_map]
  refine filterMap_congr fun constant hconstant => ?_
  have hnone : (decls.any fun decl => decl.name == escapeWord constant.name) = false := by
    simpa using h constant hconstant
  simp only [Function.comp_apply, define, hnone, Bool.false_eq_true, if_false]

/-- **The bundle is the same**, whether constants are defined or declared,
if nothing else bears their names. -/
theorem ofDecls_before
    (h : ∀ constant ∈ constants, ∀ decl ∈ decls, decl.name ≠ escapeWord constant.name) :
    ofDecls (constants.map decl ++ decls) [] = ofDecls decls (constants.map define) := by
  have houtside : outsideConsts (constants.map decl ++ decls) [] = [] := rfl
  simp only [ofDecls, outsideConsts_define h, houtside, filterMap_append, filterMap_map,
    Function.comp_def, decl]
  simp

end Constant

/-- A source is read as the declarations that the lexemes it consists of
spell. -/
theorem Decl.parse_eq_ok_iff_consistsOf {symbols name bytes parsed} :
    parse symbols (.ofBytes name bytes) = .ok parsed ↔
      ∃ lexemes, (ofBytes name bytes).ConsistsOf lexemes ∧
        File symbols parsed.decls lexemes ∧
        parsed.symbols = parsed.decls.foldl after symbols := by
  rw [parse_eq_ok, ofLexemes_eq_ok]
  constructor
  · rintro ⟨hclean, hfile⟩
    exact ⟨_, consistsOf_lexemes hclean, hfile⟩
  · rintro ⟨lexemes, hconsists, hfile⟩
    obtain ⟨hclean, rfl⟩ := lexemes_of_consistsOf hconsists
    exact ⟨hclean, hfile⟩

namespace Compile

variable {options : Options} {name text : String}

theorem bundle_eq_ok_iff_parse {bundle} :
    Compile.bundle options name text = .ok bundle ↔
      ∃ parsed, Decl.parse (ofDefines options.defines) (.ofText name text) = .ok parsed ∧
        ofDecls parsed.decls options.defines = bundle := by
  rw [Compile.bundle, parse]
  cases Decl.parse (ofDefines options.defines) (.ofText name text) with
  | error failure => exact iff_of_false nofun nofun
  | ok parsed =>
    constructor
    · intro h
      cases h
      exact ⟨parsed, rfl, rfl⟩
    · rintro ⟨_, ⟨⟩, rfl⟩
      rfl

/-- A bundle is made of declarations that the lexemes of the text spell. -/
theorem bundle_eq_ok {bundle} :
    Compile.bundle options name text = .ok bundle ↔
      ∃ lexemes decls, (ofText name text).ConsistsOf lexemes ∧
        File (ofDefines options.defines) decls lexemes ∧
        ofDecls decls options.defines = bundle := by
  rw [bundle_eq_ok_iff_parse]
  constructor
  · rintro ⟨parsed, hparse, rfl⟩
    obtain ⟨lexemes, hconsists, hfile, -⟩ := parse_eq_ok_iff_consistsOf.mp hparse
    exact ⟨lexemes, parsed.decls, hconsists, hfile, rfl⟩
  · rintro ⟨lexemes, decls, hconsists, hfile, rfl⟩
    exact ⟨⟨decls, decls.foldl after (.ofDefines options.defines)⟩,
      parse_eq_ok_iff_consistsOf.mpr ⟨lexemes, hconsists, hfile, rfl⟩, rfl⟩

theorem code_congr {options options' : Options} {name name' text text' bundle}
    (hemit : options.emit = options'.emit) (h : Compile.bundle options name text = .ok bundle)
    (h' : Compile.bundle options' name' text' = .ok bundle) :
    code options name text = code options' name' text' := by
  rw [code, code, h, h', hemit]

section Before

variable {constants : List Constant}

/-- What is read with the constants defined has nothing that bears their
names. -/
theorem name_ne_of_file {decls lexemes}
    (h : File (.ofDefines (constants.map define)) decls lexemes) :
    ∀ constant ∈ constants, ∀ decl ∈ decls, decl.name ≠ escapeWord constant.name :=
  fun _ hconstant => h.name_ne_of_constant (classOf?_ofDefines hconstant)

/-- Constants may be declared in front of a text instead of being defined. -/
theorem bundle_before
    (hdistinct : (constants.map fun constant => escapeWord constant.name).Nodup)
    (emit : Emit.Options) (name name' : String) {text}
    (hlexeme : Lexer.lexemes (Lexer.ofSource (.ofText name text)).results ≠ [])
    (bundle : Bundle) :
    Compile.bundle ⟨constants.map define, emit⟩ name text = .ok bundle ↔
      Compile.bundle ⟨[], emit⟩ name' (before constants text) = .ok bundle := by
  have hnew : ∀ constant ∈ constants, initial.classOf? (escapeWord constant.name) = none :=
    fun constant _ => constant.classOf?_initial
  rw [bundle_eq_ok, bundle_eq_ok]
  constructor
  · rintro ⟨lexemes, decls, hconsists, hfile, rfl⟩
    refine ⟨constants.flatMap Constant.lexemes ++ lexemes,
      constants.map Constant.decl ++ decls, ?_, ?_, ?_⟩
    · exact (consistsOf_before constants name' name text).mpr ⟨lexemes, rfl, hconsists⟩
    · have hafter := hfile
      rw [ofDefines_eq_foldl] at hafter
      exact (file_before_iff hdistinct hnew hfile.ne_nil).mpr ⟨decls, rfl, hafter⟩
    · exact ofDecls_before (name_ne_of_file hfile)
  · rintro ⟨_, decls, hconsists, hfile, rfl⟩
    obtain ⟨lexemes, rfl, hrest⟩ := (consistsOf_before constants name' name text).mp hconsists
    -- Without a lexeme in the text the declarations alone would be a file.
    have hne : lexemes ≠ [] := by
      rw [← (lexemes_of_consistsOf hrest).2]
      exact fun hnil => hlexeme (map_eq_nil_iff.mp hnil)
    obtain ⟨others, rfl, hothers⟩ := (file_before_iff hdistinct hnew hne).mp hfile
    rw [← ofDefines_eq_foldl] at hothers
    exact ⟨lexemes, others, hrest, hothers, (ofDecls_before (name_ne_of_file hothers)).symm⟩

end Before

/-- **Integers from outside are constants in front of the source.**  Names
with integers that a source may declare are read as definitions.  With them,
a text that has a lexeme has a bundle if and only if it has one without them
after a declaration of each, and then the bundles are the same, and so is
the emitted code. -/
theorem bundle_defines_iff_declared (constants : List Constant)
    (hdistinct : (constants.map fun constant => escapeWord constant.name).Nodup)
    (emit : Emit.Options) (name name' text : String)
    (hlexeme : Lexer.lexemes (Lexer.ofSource (.ofText name text)).results ≠ []) :
    Define.parseAll (constants.map Constant.definition) =
      .ok (constants.map Constant.define) ∧
    (∀ bundle, Compile.bundle ⟨constants.map Constant.define, emit⟩ name text = .ok bundle ↔
      Compile.bundle ⟨[], emit⟩ name' (Constant.before constants text) = .ok bundle) ∧
    ∀ bundle, Compile.bundle ⟨constants.map Constant.define, emit⟩ name text = .ok bundle →
      code ⟨constants.map Constant.define, emit⟩ name text =
        code ⟨[], emit⟩ name' (Constant.before constants text) := by
  have hbundle := bundle_before hdistinct emit name name' hlexeme
  refine ⟨Constant.parseAll_definitions constants, hbundle, fun bundle h => ?_⟩
  exact code_congr rfl h ((hbundle bundle).mp h)

/-- The name `N` for sixteen, in hexadecimal. -/
def sixteen : Constant where
  name := "N"
  digits := "0x10"
  word := .mk (by decide) (all_eq_true.mp (by decide))
  notKeyword keyword := by cases keyword <;> decide
  notTruth := by decide
  number :=
    @Numeral.number_hex [] (by decide) 'x' (.inl rfl) ['1', '0'] (all_eq_true.mp (by decide))
  inRange := by decide

/-- The name `type`, which is emitted in another form, for a negative
number. -/
def minusThree : Constant where
  name := "type"
  digits := "-3"
  word := .mk (by decide) (all_eq_true.mp (by decide))
  notKeyword keyword := by cases keyword <;> decide
  notTruth := by decide
  number := @Numeral.number_decimal ['-'] (by decide) '3' (by decide) [] nofun
  inRange := by decide

/-- Two integers that are defined or declared, the first of which bounds an
array. -/
theorem bundle_defines_iff_declared_array :
    Define.parseAll ["N=0x10", "type=-3"] = .ok [⟨"N", .int "0x10"⟩, ⟨"type", .int "-3"⟩] ∧
    ∃ bundle,
      Compile.bundle ⟨[⟨"N", .int "0x10"⟩, ⟨"type", .int "-3"⟩], .standard⟩ "a.x"
        "typedef int t<N>;" = .ok bundle ∧
      Compile.bundle ⟨[], .standard⟩ "b.x"
        "const N = 0x10;\nconst type = -3;\ntypedef int t<N>;" = .ok bundle := by
  obtain ⟨hparse, hbundle, -⟩ :=
    bundle_defines_iff_declared [sixteen, minusThree] (by decide) .standard "a.x"
    "b.x" "typedef int t<N>;" (by decide +kernel)
  have hsome : (Compile.bundle ⟨[⟨"N", .int "0x10"⟩, ⟨"type", .int "-3"⟩], .standard⟩ "a.x"
      "typedef int t<N>;").toOption.isSome = true := by decide +kernel
  refine ⟨hparse, ?_⟩
  cases hdefined : Compile.bundle ⟨[⟨"N", .int "0x10"⟩, ⟨"type", .int "-3"⟩], .standard⟩ "a.x"
      "typedef int t<N>;" with
  | error failure =>
    rw [hdefined] at hsome
    cases hsome
  | ok bundle => exact ⟨bundle, rfl, (hbundle bundle).mp hdefined⟩

end Compile
end Xdr
