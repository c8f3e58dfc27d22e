import Xdr.Proofs.Bundle.Literals
import Xdr.Proofs.Emit.Programs
import Xdr.Proofs.Numeral.Unsigned

/-!
# Where emitted code expects an unsigned integer

The lengths and bounds of arrays and the numbers of programs, versions and
procedures, with the lines of emitted code that they stand in.  A literal
there is that of an unsigned integer of 32 bits, unless the source has it as
a zero that keeps its minus.

## Main Statements

* `Bundle.Prescribes.eq_arrayTransfer` — the transfer that the declaration
  of an array prescribes
* `Emit.hasLine_of_mem_slots` — the lines of every slot stand in the emitted
  text
* `Compile.literal_unsigned_iff_of_code` — which literals are those of
  unsigned integers
-/

namespace Xdr

open Xdr.Bundle Compile List

/-! ### Arrays -/

/-- The limit of an array whose length or bound has the given text. -/
def limitText (fixed : Bool) (text : String) : String :=
  if fixed then text else "Some(" ++ text ++ ")"

/-- What moves the items of an array. -/
def TypeRef.element : TypeRef → Element
  | .named name => .declared name
  | type => .scalar (type.scalarRoutine?.getD "")

/-- The transfer of an array whose length or bound has the given text. -/
def TypeRef.arrayTransfer (type : TypeRef) (fixed : Bool) (text : String) : Transfer :=
  match type.blobRoutine? with
  | some routine => .call (marked fixed routine) (some (limitText fixed text)) none
  | none => .call (marked fixed "array") (some (limitText fixed text)) (some type.element)

theorem TypeRef.isOwn_arrayTransfer (type : TypeRef) (fixed : Bool) (text : String) :
    (type.arrayTransfer fixed text).isOwn = false := by
  unfold arrayTransfer
  cases type.blobRoutine? <;> rfl

namespace Bundle

variable {bundle : Bundle} {type : TypeRef} {length : IntExpr} {fixed : Bool}

theorem LengthText.eq_expression {text} (h : bundle.LengthText length text) :
    text = bundle.expression "u32" length := by
  cases h with
  | literal digits => rfl
  | @name name expr h =>
    rw [find?_expressions, Option.map_eq_some_iff] at h
    obtain ⟨reference, hreference, rfl⟩ := h
    rw [expression, referent?, hreference]
    show reference.text ++ " as u32" = reference.text ++ " as " ++ "u32"
    rw [String.append_assoc]
    rfl

theorem Limit.eq_limitText {limit} (h : bundle.Limit (some length) fixed limit) :
    limit = limitText fixed (bundle.expression "u32" length) := by
  cases h with
  | fixed htext => exact htext.eq_expression
  | bounded htext =>
    rw [htext.eq_expression]
    rfl

theorem Moves.eq_element {item} (h : bundle.Moves type item)
    (hblob : type.blobRoutine? = none) : item = type.element := by
  cases h with
  | scalar hroutine => cases type <;> cases hroutine <;> rfl
  | blob hroutine =>
    rw [hblob] at hroutine
    cases hroutine
  | declared _ => rfl

/-- The declaration of an array with a length or bound prescribes the
transfer with its text. -/
theorem Prescribes.eq_arrayTransfer {transfer}
    (h : bundle.Prescribes type (.array (some length) fixed) transfer) :
    transfer = type.arrayTransfer fixed (bundle.expression "u32" length) := by
  unfold TypeRef.arrayTransfer
  cases h with
  | limitedBlob hblob hlimit => rw [hblob, hlimit.eq_limitText]
  | array hblob hitem hlimit => rw [hblob, hitem.eq_element hblob, hlimit.eq_limitText]

end Bundle

/-! ### Slots -/

namespace Emit

open Doc

/-- A place of emitted code where an unsigned integer is expected: what is
declared for it, and the lines that it stands in, given its text. -/
structure Slot where
  value : IntExpr
  lines : String → List String

/-- The slot of an array with a length or bound, which stands in the lines
that move it. -/
def fieldSlots (field : Field) (lines : Transfer → List String) : List Slot :=
  match field.form with
  | .array (some length) fixed =>
    [⟨length, fun text => lines (field.type.arrayTransfer fixed text)⟩]
  | _ => []

/-- The slots of a structure. -/
def structSlots (decl : StructDecl) : List Slot :=
  decl.fields.flatMap fun field => fieldSlots field fun transfer =>
    [indented 2 (transfer.pack (.place ("self." ++ field.name)) ++ "?;"),
      indented 3 (field.name ++ ": " ++ transfer.unpack ++ "?,")]

/-- The slots of a union. -/
def unionSlots (decl : UnionDecl) : List Slot :=
  (decl.cases.filterMap Case.field?).flatMap fun field => fieldSlots field fun transfer =>
    [indented 4 ("Some(arm) => " ++ transfer.pack (.reference "arm") ++ "?,"),
      indented 3 ("Some(" ++ quoted field.name ++ ") => result." ++ field.name ++
        " = Some(" ++ transfer.unpack ++ "?),")]

/-- The slots of a type definition. -/
def aliasSlots (decl : Field) : List Slot :=
  fieldSlots decl fun transfer =>
    [indented 2 (transfer.pack (.place "self.0")),
      indented 2 ("Ok(" ++ decl.name ++ "(" ++ transfer.unpack ++ "?))")]

/-- The slot of a number at the given level. -/
def numberSlot (level : Nat) (number : IntExpr) : Slot :=
  ⟨number, fun text => [indented level ("pub const ID: u32 = " ++ text ++ ";")]⟩

/-- The slots of a program. -/
def programSlots (decl : ProgramDecl) : List Slot :=
  numberSlot 1 decl.number :: decl.versions.flatMap fun version =>
    numberSlot 2 version.number :: version.procs.map fun proc => numberSlot 3 proc.id

end Emit

open Emit in
/-- The slots of a bundle. -/
def Bundle.slots (bundle : Bundle) : List Slot :=
  bundle.structs.flatMap structSlots ++ bundle.unions.flatMap unionSlots ++
    bundle.typedefs.flatMap aliasSlots ++ bundle.programs.flatMap programSlots

namespace Emit

open Doc

variable {bundle : Bundle} {slot : Slot}

theorem map_value_fieldSlots (field : Field) (lines : Transfer → List String) :
    (fieldSlots field lines).map Slot.value = field.form.lengths := by
  obtain ⟨name, type, form⟩ := field
  rcases form with _ | ⟨_ | length, fixed⟩ | _ <;> rfl

theorem map_value_structSlots (decl : StructDecl) :
    (structSlots decl).map Slot.value = decl.lengths := by
  rw [structSlots, map_flatMap, StructDecl.lengths]
  simp only [map_value_fieldSlots]

theorem map_value_programSlots (decl : ProgramDecl) :
    (programSlots decl).map Slot.value = decl.numbers := by
  simp [programSlots, ProgramDecl.numbers, numberSlot, map_flatMap, Function.comp_def]

theorem map_value_unionSlots {decl : UnionDecl}
    (hfields : ∀ case ∈ decl.cases, ∀ length ∈ case.form.lengths,
      ∃ field, case.field? = some field ∧ field.form = case.form) :
    (unionSlots decl).map Slot.value = decl.lengths := by
  rw [unionSlots, map_flatMap, UnionDecl.lengths]
  simp only [map_value_fieldSlots]
  generalize decl.cases = cases at hfields
  induction cases with
  | nil => rfl
  | cons case cases ih =>
    rw [forall_mem_cons] at hfields
    rw [flatMap_cons, ← ih hfields.2]
    cases hcase : case.field? with
    | some field =>
      have hform : field.form = case.form := by
        unfold Case.field? at hcase
        split at hcase <;> cases hcase
        rfl
      rw [filterMap_cons_some hcase, flatMap_cons, hform]
    | none =>
      -- A case without a field has no array.
      have hnil : case.form.lengths = [] := by
        refine eq_nil_iff_forall_not_mem.mpr fun length hlength => ?_
        obtain ⟨field, hfield, -⟩ := hfields.1 length hlength
        rw [hcase] at hfield
        cases hfield
      rw [filterMap_cons_none hcase, hnil, nil_append]

/-- **The slots of a bundle are its lengths, bounds and numbers**, if the
arrays in its unions belong to fields. -/
theorem map_value_slots
    (hfields : ∀ decl ∈ bundle.unions, ∀ case ∈ decl.cases, ∀ length ∈ case.form.lengths,
      ∃ field, case.field? = some field ∧ field.form = case.form) :
    bundle.slots.map Slot.value = bundle.numbers := by
  have hunions : (bundle.unions.flatMap unionSlots).map Slot.value =
    bundle.unions.flatMap UnionDecl.lengths := by
    rw [map_flatMap]
    exact flatMap_congr fun decl hdecl => map_value_unionSlots (hfields decl hdecl)
  have htypedefs : ∀ decl, (aliasSlots decl).map Slot.value = decl.form.lengths :=
    fun decl => map_value_fieldSlots decl _
  rw [slots, numbers, map_append, map_append, map_append, hunions]
  simp only [map_flatMap, map_value_structSlots, map_value_programSlots, htypedefs]

/-! ### Lines -/

/-- A line stands in a text. -/
def HasLine (text line : String) : Prop :=
  ∃ before after, text = Doc.text (before ++ [line] ++ after)

theorem hasLine_of_mem {text line lines} (hline : line ∈ lines)
    (h : ∃ before after, text = Doc.text (before ++ lines ++ after)) : HasLine text line := by
  refine text_of_within ?_ h
  obtain ⟨front, back, rfl⟩ := append_of_mem hline
  exact ⟨front, back, by simp⟩

theorem mem_wireLines {name line pack unpack} (h : line ∈ pack ∨ line ∈ unpack) :
    line ∈ wireLines name pack unpack := by
  rw [wireLines, mem_append, mem_append, mem_append, mem_append]
  rcases h with hpack | hunpack
  · exact .inl (.inl (.inl (.inr hpack)))
  · exact .inl (.inr hunpack)

/-- A field has a slot only if it is an array with a length or bound, and
its prescribed transfer has the text. -/
theorem lines_of_mem_fieldSlots {field lines} (hslot : slot ∈ fieldSlots field lines)
    {transfer} (htransfer : bundle.Prescribes field.type field.form transfer) :
    slot.lines (bundle.expression "u32" slot.value) = lines transfer ∧ transfer.isOwn =
      false := by
  unfold fieldSlots at hslot
  split at hslot
  · next length fixed hform =>
    rw [hform] at htransfer
    cases mem_singleton.mp hslot
    rw [htransfer.eq_arrayTransfer]
    exact ⟨rfl, field.type.isOwn_arrayTransfer ..⟩
  · cases hslot

variable {options : Options} (h : (render options bundle).2 = none)
include h

theorem hasLine_of_mem_structSlots {decl} (hdecl : decl ∈ bundle.structs)
    (hslot : slot ∈ structSlots decl) :
    ∀ line ∈ slot.lines (bundle.expression "u32" slot.value),
      HasLine (render options bundle).1 line := by
  obtain ⟨plan, hplan⟩ := (passes_of_render h).structs decl hdecl
  obtain ⟨moves, hfields, hprescribed, htext⟩ := mirror_of_struct h hdecl hplan
  obtain ⟨field, hfield, hslot⟩ := mem_flatMap.mp hslot
  rw [← hfields] at hfield
  obtain ⟨move, hmove, rfl⟩ := mem_map.mp hfield
  rw [(lines_of_mem_fieldSlots hslot (hprescribed move hmove)).1]
  intro line hline
  refine hasLine_of_mem (mem_wireLines ?_) htext
  rcases mem_pair.mp hline with rfl | rfl
  · exact .inl (mem_append_left _ (mem_map_of_mem hmove))
  · exact .inr (mem_append_left _ (mem_append_right _ (mem_map_of_mem hmove)))

theorem hasLine_of_mem_aliasSlots {decl} (hdecl : decl ∈ bundle.typedefs)
    (hslot : slot ∈ aliasSlots decl) :
    ∀ line ∈ slot.lines (bundle.expression "u32" slot.value),
      HasLine (render options bundle).1 line := by
  obtain ⟨plan, hplan⟩ := (passes_of_render h).typedefs decl hdecl
  obtain ⟨transfer, hprescribed, htext⟩ := mirror_of_alias h hdecl hplan
  rw [(lines_of_mem_fieldSlots hslot hprescribed).1]
  intro line hline
  refine hasLine_of_mem (mem_wireLines ?_) htext
  rcases mem_pair.mp hline with rfl | rfl
  · exact .inl (.head _)
  · exact .inr (.head _)

theorem hasLine_of_mem_unionSlots {decl} (hdecl : decl ∈ bundle.unions)
    (hslot : slot ∈ unionSlots decl) :
    ∀ line ∈ slot.lines (bundle.expression "u32" slot.value),
      HasLine (render options bundle).1 line := by
  obtain ⟨plan, hplan⟩ := (passes_of_render h).unions decl hdecl
  obtain ⟨tag, arms, -, hprescribed, -, hfields, htext⟩ := mirror_of_union h hdecl hplan
  obtain ⟨field, hfield, hslot⟩ := mem_flatMap.mp hslot
  obtain ⟨case, hcase, hsome⟩ := mem_filterMap.mp hfield
  obtain ⟨move, hmove, rfl⟩ := mem_map.mp ((hfields field).mpr ⟨case, hcase, hsome⟩)
  obtain ⟨hlines, hown⟩ := lines_of_mem_fieldSlots hslot (hprescribed move hmove)
  have hchoice : ∀ {subject line : String} {lines : Move → List String}, line ∈ lines move →
      line ∈ choiceLines subject arms lines := by
    intro subject line lines hline
    have hempty : ¬ arms.isEmpty = true := fun hempty => by
      rw [isEmpty_iff.mp hempty] at hmove
      cases hmove
    rw [choiceLines, if_neg hempty]
    exact mem_append_left _ (mem_append_right _ (mem_flatMap.mpr ⟨move, hmove, hline⟩))
  rw [hlines]
  intro line hline
  refine hasLine_of_mem (mem_wireLines ?_) htext
  rcases mem_pair.mp hline with rfl | rfl
  · exact .inl (mem_append_left _ (mem_append_right _ (hchoice (.tail _ (.head _)))))
  · refine .inr (mem_append_left _ (mem_append_right _ (hchoice ?_)))
    have hheld : heldArm move.transfer = move.transfer.unpack ++ "?" := by
      rw [heldArm, hown]
      rfl
    rw [unpackArmLines, hheld, mem_singleton]
    simp only [String.append_assoc]
    rfl

theorem hasLine_of_mem_programSlots {decl} (hdecl : decl ∈ bundle.programs)
    (hslot : slot ∈ programSlots decl) :
    ∀ line ∈ slot.lines (bundle.expression "u32" slot.value),
      HasLine (render options bundle).1 line := by
  have htext := text_of_program h hdecl
  have hmodule :
    ∀ {level : Nat} {name : String} {opened : Bool} {items : List String} {line : String},
      line ∈ items → line ∈ moduleLines level name opened items :=
    fun hline => (items_within ..).mem hline
  intro line hline
  rcases mem_cons.mp hslot with rfl | hslot
  · cases mem_singleton.mp hline
    exact hasLine_of_mem (hmodule (.head _)) htext
  obtain ⟨version, hversion, hslot⟩ := mem_flatMap.mp hslot
  rcases mem_cons.mp hslot with rfl | hslot
  · cases mem_singleton.mp hline
    exact hasLine_of_mem (hmodule (.head _))
      (text_of_within (versionLines_within hversion) htext)
  · obtain ⟨proc, hproc, rfl⟩ := mem_map.mp hslot
    cases mem_singleton.mp hline
    exact hasLine_of_mem (hmodule (.head _))
      (text_of_within ((procLines_within hproc).trans (versionLines_within hversion)) htext)

/-- **The lines of every slot stand in the emitted text**, with the
expression of what is declared for it. -/
theorem hasLine_of_mem_slots (hslot : slot ∈ bundle.slots) :
    ∀ line ∈ slot.lines (bundle.expression "u32" slot.value),
    HasLine (render options bundle).1 line := by
  simp only [slots, mem_append, mem_flatMap] at hslot
  rcases hslot with ((⟨decl, hdecl, hslot⟩ | ⟨decl, hdecl, hslot⟩) | ⟨decl, hdecl, hslot⟩) |
    ⟨decl, hdecl, hslot⟩
  · exact hasLine_of_mem_structSlots h hdecl hslot
  · exact hasLine_of_mem_unionSlots h hdecl hslot
  · exact hasLine_of_mem_aliasSlots h hdecl hslot
  · exact hasLine_of_mem_programSlots h hdecl hslot

end Emit

namespace Compile

/-- **Which literals are those of unsigned integers.**  In the code of a
source, the lines of every length, bound and number stand with its
expression.  If that is a literal, it is the canonical spelling of a literal
of the source, which stands for an integer of 32 bits that is not negative,
the one it is evaluated to.  It is the literal of this unsigned integer, and
has no minus, if and only if the source does not have a zero that keeps it. -/
theorem literal_unsigned_iff_of_code {options : Options} {name text code : String}
    (h : Compile.code options name text = .ok code) :
    ∃ bundle, Compile.bundle options name text = .ok bundle ∧
      bundle.slots.map Emit.Slot.value = bundle.numbers ∧
      ∀ slot ∈ bundle.slots,
        (∀ line ∈ slot.lines (bundle.expression "u32" slot.value), Emit.HasLine code line) ∧
        ∀ digits, slot.value = .literal digits → bundle.expression "u32" slot.value = digits ∧
          ∃ source, .literal source ∈ (Lexer.lexemes
              (Lexer.ofSource (Source.ofText name text)).results).map Located.value ∧
            digits.toList = Numeral.canonical source.toList ∧
            ∃ n : Nat, bundle.evaluate slot.value = some (n : Int) ∧ n ≤ 0xffffffff ∧
              Numeral.meaning source.toList = n ∧
              (Numeral.Unsigned digits.toList n ↔ ¬ Numeral.NegativeZero source.toList) ∧
              ('-' ∈ digits.toList ↔ Numeral.NegativeZero source.toList) := by
  obtain ⟨bundle, hbundle, hgenerate⟩ := exists_bundle_of_code h
  obtain ⟨decls, hfile, rfl⟩ := exists_decls_of_bundle hbundle
  obtain ⟨rfl, hrender⟩ := Emit.generate_eq_ok.mp hgenerate
  have hfields : ∀ decl ∈ (Bundle.ofDecls decls options.defines).unions, ∀ case ∈ decl.cases,
      ∀ length ∈ case.form.lengths, ∃ field,
      case.field? = some field ∧ field.form = case.form :=
    fun decl hdecl case hcase length hlength =>
      Bundle.exists_field_of_mem_unions hfile hdecl hcase hlength
  have hvalues := Emit.map_value_slots hfields
  have hadmits := Emit.admits_of_passes (Emit.passes_of_generate hgenerate) hfields
  refine ⟨_, hbundle, hvalues,
    fun slot hslot => ⟨Emit.hasLine_of_mem_slots hrender hslot, ?_⟩⟩
  intro digits hdigits
  have hnumber : slot.value ∈ (Bundle.ofDecls decls options.defines).numbers :=
    hvalues ▸ mem_map_of_mem hslot
  -- The literal is that of some declaration in its canonical spelling, so the lexer has
  -- checked it.
  obtain ⟨decl, hdecl, written, hwritten, hspelled⟩ := Bundle.exists_of_mem_numbers hnumber
  rw [hdigits] at hspelled hnumber ⊢
  cases written with
  | name other => cases hspelled
  | literal source =>
    obtain rfl := IntExpr.literal.inj hspelled
    have hlexeme := hfile.literal_mem hdecl hwritten
    have hcheck : Numeral.check source.toList = none := by
      obtain ⟨⟨span, lexeme⟩, hmem, rfl⟩ := mem_map.mp hlexeme
      exact Lexer.check_of_mem_lexemes hmem
    have hevaluate :=
      (Numeral.kept_of_check hcheck).evaluate_eq (Bundle.ofDecls decls options.defines)
    obtain ⟨hnonneg, hle⟩ := (hadmits _ hnumber).range hevaluate
    obtain ⟨n, hn⟩ := Int.eq_ofNat_of_zero_le hnonneg
    rw [Bundle.maxUnsigned] at hle
    refine ⟨rfl, source, hlexeme, String.toList_ofList, n,
      hn ▸ hevaluate, by omega, hn, ?_, ?_⟩
    · rw [String.toList_ofList]
      exact Numeral.unsigned_iff hcheck hn
    · rw [String.toList_ofList]
      exact Numeral.minus_mem_canonical_iff hcheck hnonneg

/-- An array whose length is a zero with a minus. -/
def negativeZeroText : String :=
  "typedef opaque t[-0];"

/-- The bundle of this declaration. -/
def emptyArray : Bundle where
  consts := []
  enums := []
  structs := []
  unions := []
  typedefs := [⟨"t", .opaqueData, .array (some (.literal "-0")) true⟩]
  programs := []

theorem bundle_emptyArray :
    bundle ⟨[], .standard⟩ "test.x" negativeZeroText = .ok emptyArray :=
  eq_ok_of_toOption (by decide +kernel)

theorem exists_code_emptyArray :
    ∃ code, Compile.code ⟨[], .standard⟩ "test.x" negativeZeroText = .ok code :=
  exists_ok_of_isOk (by decide +kernel)

/-- The length is emitted with its minus, and is no literal of an unsigned
integer. -/
theorem literal_unsigned_iff_of_code_emptyArray :
    ∃ code, Compile.code ⟨[], .standard⟩ "test.x" negativeZeroText = .ok code ∧
      Emit.HasLine code "        packer.pack_fopaque(&self.0, -0)" ∧
      Emit.HasLine code "        Ok(t(unpacker.unpack_fopaque(-0)?))" ∧
      emptyArray.evaluate (.literal "-0") = some 0 ∧
      ∀ n, ¬ Numeral.Unsigned "-0".toList n := by
  obtain ⟨code, hcode⟩ := exists_code_emptyArray
  obtain ⟨bundle, hbundle, -, hslots⟩ := literal_unsigned_iff_of_code hcode
  obtain rfl : emptyArray = bundle := Except.ok.inj (bundle_emptyArray.symm.trans hbundle)
  obtain ⟨slot, hslot, hvalue, hlines⟩ : ∃ slot ∈ emptyArray.slots,
    slot.value = .literal "-0" ∧
      slot.lines "-0" = ["        packer.pack_fopaque(&self.0, -0)",
        "        Ok(t(unpacker.unpack_fopaque(-0)?))"] :=
    ⟨_, .head _, rfl, by decide⟩
  obtain ⟨hemitted, hliteral⟩ := hslots slot hslot
  obtain ⟨hexpression, -⟩ := hliteral "-0" hvalue
  rw [hexpression, hlines] at hemitted
  refine ⟨code, hcode, hemitted _ (.head _), hemitted _ (.tail _ (.head _)), by decide,
    fun n hunsigned => ?_⟩
  exact hunsigned.notMem (by decide) (by decide) (List.mem_cons_self (a := '-'))

end Compile
end Xdr
