import Xdr.Proofs.Bundle.Agreement
import Xdr.Proofs.Bundle.Defines
import Xdr.Proofs.Decl.Lexemes

/-!
# Constants of a bundle and recorded constants

The constants of a source are kept twice: their spellings in the table of
names, where a later entry takes the place of an earlier one of its name,
and the constants themselves in the bundle, where all of them stay.  What
the source declares is the same in both.  What is defined from outside is
the same only if no integer is defined twice and none is followed by another
spelling for its name.

## Main Statements

* `Symbols.find?_constants_ofDefines` — of the definitions of a name, the
  last one is recorded
* `Bundle.outsideConsts_eq` — all defined integers become constants of the
  bundle
* `Bundle.nodup_consts_iff` — the constants of a bundle are distinct if the
  defined integers are
* `Decl.recorded_iff_consistent` — when the two agree
-/

namespace Xdr

open Define List Numeral Symbols

/-! ### Spellings -/

namespace Numeral

/-- The canonical spelling of a recorded text. -/
def respell (text : String) : String :=
  String.ofList (canonical text.toList)

/-- Only the spellings of integers change. -/
theorem canonical_of_word {chars} (h : Word chars) : canonical chars = chars := by
  obtain ⟨hfirst, -⟩ := h
  next c rest =>
  have hplus : c ≠ '+' := by rintro rfl; cases hfirst
  have hminus : c ≠ '-' := by rintro rfl; cases hfirst
  have hzero : c ≠ '0' := by rintro rfl; cases hfirst
  simp [canonical, isOctal, hplus, hminus, hzero]

end Numeral

/-- An integer that a source spells is recorded by its text, and that tells
its canonical form. -/
theorem IntExpr.respell_text {value : IntExpr} (h : ∃ text, Spells text value.lexeme) :
    respell value.text = value.canonical.text := by
  cases value with
  | literal text => rfl
  | name name =>
    have hname : IsName name := h
    show String.ofList (Numeral.canonical name.toList) = name
    rw [canonical_of_word hname.word, String.ofList_toList]

/-! ### Definitions from outside -/

namespace Define

/-- The constant that a definition becomes. -/
def const? (define : Define) : Option ConstDecl :=
  match define.value with
  | .int digits => some ⟨escapeWord define.name, .literal digits⟩
  | .text _ => none

/-- The last of the definitions that emitted code would know by a name. -/
def last? (defines : List Define) (name : String) : Option Define :=
  (defines.filter fun define => escapeWord define.name == name).getLast?

/-- No name is defined as an integer twice, and the last definition of an
integer's name spells that integer. -/
structure Consistent (defines : List Define) : Prop where
  distinct : (defines.filterMap integerName?).Nodup
  spelled : ∀ const ∈ defines.filterMap const?, ∀ last ∈ last? defines const.name,
    respell last.value.spelling = const.canonical.value.text

theorem map_const? (define : Define) :
    define.const?.map ConstDecl.name = define.integerName? := by
  unfold const? integerName?
  cases define.value <;> rfl

theorem name_const? {define : Define} {const} (h : define.const? = some const) :
    escapeWord define.name = const.name ∧ define.integerName? = some const.name := by
  rw [← map_const?, h]
  unfold const? at h
  split at h
  · cases h
    exact ⟨rfl, rfl⟩
  · cases h

/-- A name that is defined has a last definition. -/
theorem exists_last? {defines define} (h : define ∈ defines) :
    ∃ last, last? defines (escapeWord define.name) = some last := by
  have hmem : define ∈ defines.filter fun other =>
    escapeWord other.name == escapeWord define.name :=
    mem_filter.mpr ⟨h, beq_self_eq_true _⟩
  exact ⟨_, getLast?_eq_some_getLast (ne_nil_of_mem hmem)⟩

end Define

namespace Symbols

theorem constants_foldl_addDefine (symbols : Symbols) (defines : List Define) :
    (defines.foldl addDefine symbols).constants =
      symbols.constants.insertAll (defines.map fun define =>
        (escapeWord define.name, define.value.spelling)) := by
  induction defines generalizing symbols with
  | nil => rfl
  | cons define defines ih =>
    rw [foldl_cons, ih]
    rfl

/-- **Of the definitions of a name, the last one is recorded.** -/
theorem find?_constants_ofDefines {defines : List Define} {name : String} {last : Define}
    (h : last? defines name = some last) :
    (ofDefines defines).constants.find? name = some last.value.spelling := by
  rw [last?] at h
  rw [ofDefines, constants_foldl_addDefine, Table.find?_insertAll, filter_map, getLast?_map]
  have hsame : (defines.filter ((fun entry : String × String => entry.1 == name) ∘
      fun define => (escapeWord define.name, define.value.spelling))).getLast? = some last :=
        h
  rw [hsame]
  rfl

end Symbols

/-! ### Constants of a source -/

/-- The names of the constants are distinct, and a table records their
spellings. -/
structure ConstDecl.Recorded (consts : List ConstDecl) (recorded : Table String) : Prop where
  distinct : (consts.map ConstDecl.name).Nodup
  spelled : ∀ const ∈ consts, ∃ text, recorded.find? const.name = some text ∧
    respell text = const.value.text

/-- The constant that a declaration declares. -/
def Decl.const? : Decl → Option ConstDecl
  | .const decl => some decl
  | _ => none

theorem Decl.const?_eq_some {decl : Decl} {const} :
    decl.const? = some const ↔ decl = .const const := by
  cases decl <;> simp [const?]

theorem Decl.constant?_eq (decl : Decl) :
    decl.constant? = decl.const?.map fun const => (const.name, const.value.text) := by
  cases decl <;> rfl

theorem Decl.mem_filterMap_const? {decls : List Decl} {const} :
    const ∈ decls.filterMap Decl.const? ↔ .const const ∈ decls := by
  simp [mem_filterMap, const?_eq_some]

theorem Decl.map_fst_constant? (decls : List Decl) :
    (decls.filterMap Decl.constant?).map Prod.fst =
      (decls.filterMap Decl.const?).map ConstDecl.name := by
  rw [map_filterMap, map_filterMap]
  congr 1
  funext decl
  rw [constant?_eq, Option.map_map]
  rfl

namespace Bundle

open Grammar

variable {decls : List Decl} {defines : List Define} {lexemes : List Lexeme}
  (hfile : File (ofDefines defines) decls lexemes)
include hfile

variable {const : ConstDecl}

/-! ### Names -/

theorem nodup_declared : ((decls.filterMap Decl.const?).map ConstDecl.name).Nodup := by
  have hnodup := hfile.nodup_knownNames.1
  rw [map_filterMap]
  rw [List.Nodup, pairwise_filterMap] at hnodup ⊢
  refine hnodup.imp fun {decl other} hne name hname name' hname' => ?_
  simp only [Option.map_eq_some_iff, Decl.const?_eq_some] at hname hname'
  obtain ⟨const, rfl, rfl⟩ := hname
  obtain ⟨const', rfl, rfl⟩ := hname'
  exact hne _ rfl _ rfl

/-- The source bears none of the names that are defined as integers. -/
theorem name_ne_of_defined (h : const ∈ defines.filterMap const?) :
    ∀ decl ∈ decls, decl.name ≠ const.name := by
  obtain ⟨define, hdefine, hconst⟩ := mem_filterMap.mp h
  refine hfile.name_ne_of_constant ?_
  rw [classOf?_ofDefines, if_pos]
  exact mem_append_right _ (mem_filterMap.mpr ⟨define, hdefine, (name_const? hconst).2⟩)

theorem name_notMem_of_defined (h : const ∈ defines.filterMap const?) :
    const.name ∉ (decls.filterMap Decl.const?).map ConstDecl.name := by
  intro hname
  obtain ⟨declared, hdeclared, heq⟩ := mem_map.mp hname
  exact name_ne_of_defined hfile h _ (Decl.mem_filterMap_const?.mp hdeclared) heq

/-- **All defined integers become constants of the bundle.** -/
theorem outsideConsts_eq : outsideConsts decls defines = defines.filterMap const? := by
  refine filterMap_congr fun define hdefine => ?_
  cases hvalue : define.value with
  | text _ => simp [const?, hvalue]
  | int digits =>
    have hconst : define.const? = some ⟨escapeWord define.name, .literal digits⟩ := by
      simp [const?, hvalue]
    have hne := name_ne_of_defined hfile (mem_filterMap.mpr ⟨define, hdefine, hconst⟩)
    have hnone : (decls.any fun decl => decl.name == escapeWord define.name) = false := by
      simpa using hne
    simp [hconst, hnone]

theorem mem_consts_iff :
    const ∈ (ofDecls decls defines).consts ↔
      ∃ source, (source ∈ defines.filterMap const? ∨ .const source ∈ decls) ∧
        source.canonical = const := by
  rw [mem_consts_ofDecls, outsideConsts_eq hfile, ← exists_or]
  refine exists_congr fun source => ?_
  tauto

/-- **The constants of a bundle are distinct if the defined integers are.** -/
theorem nodup_consts_iff :
    ((ofDecls decls defines).consts.map ConstDecl.name).Nodup ↔
    (defines.filterMap integerName?).Nodup := by
  have hdefined : defines.filterMap integerName? =
      (defines.filterMap const?).map ConstDecl.name := by
    rw [map_filterMap]
    congr 1
    funext define
    exact define.map_const?.symm
  have hnames : (ofDecls decls defines).consts.map ConstDecl.name =
      (defines.filterMap const?).map ConstDecl.name ++
        (decls.filterMap Decl.const?).map ConstDecl.name := by
    rw [ofDecls, outsideConsts_eq hfile, map_map, ← map_append]
    rfl
  rw [hnames, hdefined, nodup_append]
  refine ⟨And.left, fun hdistinct => ⟨hdistinct, nodup_declared hfile, ?_⟩⟩
  intro name hname other hother heq
  obtain ⟨const, hconst, rfl⟩ := mem_map.mp hname
  exact name_notMem_of_defined hfile hconst (heq ▸ hother)

/-! ### Recorded spellings -/

/-- A declared constant is recorded as it is spelled, whatever was defined
before. -/
theorem find?_constants_of_declared {decl} (h : .const decl ∈ decls) :
    (decls.foldl after (.ofDefines defines)).constants.find? decl.name =
      some decl.value.text := by
  rw [constants_foldl_after]
  refine Table.find?_insertAll_of_mem ?_ (mem_filterMap.mpr ⟨.const decl, h, rfl⟩)
  rw [Decl.map_fst_constant?]
  exact nodup_declared hfile

/-- For a defined integer the last definition of its name is recorded. -/
theorem find?_constants_of_defined (h : const ∈ defines.filterMap const?) :
    ∃ last, last? defines const.name = some last ∧
      (decls.foldl after (.ofDefines defines)).constants.find? const.name =
        some last.value.spelling := by
  obtain ⟨define, hdefine, hconst⟩ := mem_filterMap.mp h
  obtain ⟨last, hlast⟩ := exists_last? hdefine
  rw [(name_const? hconst).1] at hlast
  refine ⟨last, hlast, ?_⟩
  rw [constants_foldl_after, Table.find?_insertAll_of_notMem, find?_constants_ofDefines hlast]
  rw [Decl.map_fst_constant?]
  exact name_notMem_of_defined hfile h

end Bundle

namespace Decl

theorem respell_declared {lexemes symbols decls}
    (hspells : ∀ lexeme ∈ lexemes, ∃ text, Spells text lexeme)
    (hfile : Grammar.File symbols decls lexemes) {decl} (h : .const decl ∈ decls) :
    respell decl.value.text = decl.canonical.value.text := by
  refine IntExpr.respell_text (hspells _ (hfile.lexemes_subset h ?_))
  simp [Decl.lexemes]

/-- **When the constants of a bundle are the recorded ones.**  Every
constant of the bundle of a source is recorded, and one that the source
declares is recorded as it is spelled.  All of them are, under distinct
names, if and only if no integer is defined twice from outside and the last
definition of an integer's name spells it. -/
theorem recorded_iff_consistent {defines : List Define} {name : String} {bytes : List UInt8}
    {parsed : Parsed} (h : parse (.ofDefines defines) (.ofBytes name bytes) = .ok parsed) :
    (∀ const ∈ (Bundle.ofDecls parsed.decls defines).consts,
      (parsed.symbols.constants.find? const.name).isSome) ∧
    (∀ decl, .const decl ∈ parsed.decls →
      decl.canonical ∈ (Bundle.ofDecls parsed.decls defines).consts ∧
      parsed.symbols.constants.find? decl.name = some decl.value.text ∧
      Numeral.respell decl.value.text = decl.canonical.value.text) ∧
    (ConstDecl.Recorded (Bundle.ofDecls parsed.decls defines).consts
      parsed.symbols.constants ↔ Define.Consistent defines) := by
  obtain ⟨lexemes, hconsists, hfile, hsymbols⟩ := parse_eq_ok_iff_consistsOf.mp h
  have hdeclared : ∀ decl, .const decl ∈ parsed.decls →
      decl.canonical ∈ (Bundle.ofDecls parsed.decls defines).consts ∧
      parsed.symbols.constants.find? decl.name = some decl.value.text ∧
      Numeral.respell decl.value.text = decl.canonical.value.text := by
    intro decl hdecl
    refine ⟨(Bundle.mem_consts_iff hfile).mpr ⟨decl, .inr hdecl, rfl⟩, ?_, ?_⟩
    · rw [hsymbols]
      exact Bundle.find?_constants_of_declared hfile hdecl
    · exact respell_declared hconsists.exists_spells hfile hdecl
  have hdefined : ∀ const ∈ defines.filterMap Define.const?, ∃ last,
      Define.last? defines const.name = some last ∧
        parsed.symbols.constants.find? const.name = some last.value.spelling := by
    rw [hsymbols]
    exact fun const hconst => Bundle.find?_constants_of_defined hfile hconst
  refine ⟨?_, hdeclared, ?_, ?_⟩
  · intro const hconst
    obtain ⟨source, hdefine | hdecl, rfl⟩ := (Bundle.mem_consts_iff hfile).mp hconst
    · obtain ⟨last, -, hfound⟩ := hdefined source hdefine
      exact Option.isSome_of_eq_some hfound
    · exact Option.isSome_of_eq_some (hdeclared source hdecl).2.1
  · rintro ⟨hdistinct, hspelled⟩
    refine ⟨(Bundle.nodup_consts_iff hfile).mp hdistinct, fun const hconst last hlast => ?_⟩
    obtain ⟨text, hfound, htext⟩ :=
      hspelled _ ((Bundle.mem_consts_iff hfile).mpr ⟨const, .inl hconst, rfl⟩)
    obtain ⟨last', hlast', hrecorded⟩ := hdefined const hconst
    cases hlast.symm.trans hlast'
    cases hrecorded.symm.trans hfound
    exact htext
  · rintro ⟨hdistinct, hspelled⟩
    refine ⟨(Bundle.nodup_consts_iff hfile).mpr hdistinct, fun const hconst => ?_⟩
    obtain ⟨source, hdefine | hdecl, rfl⟩ := (Bundle.mem_consts_iff hfile).mp hconst
    · obtain ⟨last, hlast, hfound⟩ := hdefined source hdefine
      exact ⟨_, hfound, hspelled source hdefine last hlast⟩
    · exact ⟨_, (hdeclared source hdecl).2⟩

/-- Two integers for one name. -/
def repeated : List Define :=
  [⟨"A", .int "1"⟩, ⟨"A", .int "2"⟩]

/-- The bundle has both integers of the name, and the table the last one. -/
theorem not_recorded_repeated :
    ∃ parsed, parse (.ofDefines repeated) (.ofText "repeated" "const B = 3;") = .ok parsed ∧
      (Bundle.ofDecls parsed.decls repeated).consts =
        [⟨"A", .literal "1"⟩, ⟨"A", .literal "2"⟩, ⟨"B", .literal "3"⟩] ∧
      parsed.symbols.constants.find? "A" = some "2" ∧
      ¬ ConstDecl.Recorded (Bundle.ofDecls parsed.decls repeated).consts
        parsed.symbols.constants := by
  have hread : (parse (.ofDefines repeated) (.ofText "repeated" "const B = 3;")).toOption.map
      (fun parsed =>
        ((Bundle.ofDecls parsed.decls repeated).consts, parsed.symbols.constants.find? "A")) =
        some ([⟨"A", .literal "1"⟩, ⟨"A", .literal "2"⟩, ⟨"B", .literal "3"⟩], some "2") := by
    decide +kernel
  cases hparse : parse (.ofDefines repeated) (.ofText "repeated" "const B = 3;") with
  | error failure =>
    rw [hparse] at hread
    cases hread
  | ok parsed =>
    rw [hparse] at hread
    obtain ⟨hconsts, hfound⟩ := Prod.mk.inj (Option.some.inj hread)
    refine ⟨parsed, rfl, hconsts, hfound, fun hrecorded => ?_⟩
    have hconsistent := (recorded_iff_consistent hparse).2.2.mp hrecorded
    exact absurd hconsistent.distinct (by decide)

end Decl
end Xdr
