import Mathlib.Data.List.Infix
import Mathlib.Tactic.Choose
import Xdr.Proofs.Emit.FirstViolation
import Xdr.Proofs.Emit.Transfer

/-!
# Packing and unpacking mirror each other

The two functions of every emitted type, line by line, from the transfers
that the declaration prescribes.

## Main Statements

* `Emit.exists_text_of_prints` — what a part of a module prints stands in
  the emitted text
* `Emit.mirror_of_render` — emitted functions move every field by the one
  transfer that its declaration prescribes

## Design Notes

The lines are functions of the transfers alone, so that a pair of functions
in which one direction is changed is no such pair of lines.
-/

namespace Xdr.Emit

open Doc List Output Stroke

theorem indented_zero (text : String) : indented 0 text = text :=
  String.empty_append

/-! ### The lines of the two functions -/

/-- A field and what moves it. -/
structure Move where
  field : Field
  transfer : Transfer
  deriving DecidableEq, Repr

/-- A field is moved as its declaration prescribes. -/
def Move.Prescribed (bundle : Bundle) (move : Move) : Prop :=
  bundle.Prescribes move.field.type move.field.form move.transfer

/-- The lines of the two functions of a type, given those of their bodies. -/
def wireLines (name : String) (pack unpack : List String) : List String :=
  ["impl Xdr for " ++ name ++ " \x7b",
    indented 1 "fn pack(&self, packer: &mut Packer) -> ::xdr_runtime::Result<()> \x7b"] ++
      pack ++ [indented 1 "\x7d", "",
        indented 1
        "fn unpack(unpacker: &mut Unpacker<'_>) -> ::xdr_runtime::Result<Self> \x7b"] ++
        unpack ++
    [indented 1 "\x7d", "\x7d"]

/-- A structure packs its fields in order, and unpacks them in the same
order. -/
def structLines (name : String) (moves : List Move) : List String :=
  wireLines name
    (moves.map (fun move =>
      indented 2 (move.transfer.pack (.place ("self." ++ move.field.name)) ++ "?;")) ++
        [indented 2 "Ok(())"])
    ([indented 2 ("Ok(" ++ name ++ " \x7b")] ++
      moves.map (fun move =>
        indented 3 (move.field.name ++ ": " ++ move.transfer.unpack ++ "?,")) ++
      [indented 2 "\x7d)"])

/-- A type definition moves its only field, which has no name. -/
def aliasLines (name : String) (transfer : Transfer) : List String :=
  wireLines name [indented 2 (transfer.pack (.place "self.0"))]
    [indented 2 ("Ok(" ++ name ++ "(" ++ transfer.unpack ++ "?))")]

/-- The lines that choose among the arms, if there are any. -/
def choiceLines (subject : String) (moves : List Move) (lines : Move → List String) :
    List String :=
  if moves.isEmpty then []
  else [indented 2 ("match " ++ subject ++ ".arm() \x7b")] ++ moves.flatMap lines ++
    [indented 3 "_ => (),", indented 2 "\x7d"]

/-- Packing an arm that is selected. -/
def packArmLines (union : String) (move : Move) : List String :=
  [indented 3 ("Some(" ++ quoted move.field.name ++ ") => match &self." ++ move.field.name ++
    " \x7b"), indented 4 ("Some(arm) => " ++ move.transfer.pack (.reference "arm") ++ "?,"),
    indented 4 "None => return Err(XdrError::MissingArm \x7b",
    indented 5 ("union: " ++ quoted union ++ ","),
    indented 5 ("arm: " ++ quoted move.field.name ++ ","),
    indented 4 "\x7d),",
    indented 3 "\x7d,"]

/-- An arm that was unpacked: one that is moved by its own type is boxed. -/
def heldArm (transfer : Transfer) : String :=
  if transfer.isOwn then "Box::new(" ++ transfer.unpack ++ "?)" else transfer.unpack ++ "?"

/-- Unpacking an arm that is selected. -/
def unpackArmLines (move : Move) : List String :=
  [indented 3 ("Some(" ++ quoted move.field.name ++ ") => result." ++ move.field.name ++
    " = Some(" ++ heldArm move.transfer ++ "),")]

/-- A union moves its discriminant, and then the arm that is selected. -/
def unionLines (name tag : String) (transfer : Transfer) (arms : List Move) : List String :=
  wireLines name
    ([indented 2 (transfer.pack (.place ("self." ++ tag)) ++ "?;")] ++
      choiceLines "self" arms (packArmLines name) ++ ["", indented 2 "Ok(())"])
    ([indented 2 ("let mut result = " ++ name ++ "::default();"),
        indented 2 ("result." ++ tag ++ " = " ++ transfer.unpack ++ "?;"), ""] ++
      choiceLines "result" arms unpackArmLines ++ ["", indented 2 "Ok(result)"])

/-! ### Printing -/

section

attribute [local simp] Stroke.print print_enter print_leaveWith print_lines leave enterWire
  enterPack enterUnpack wrote_andThen_andThen indented_zero wireLines String.append_assoc

@[simp] theorem toString_text (text : String) : toString text = text := rfl

/-- The moves of some fields, given what moves each. -/
def movesOf (transfer : Field × Layout → Transfer)
    (found : List (Field × Layout)) : List Move :=
  found.map fun entry => ⟨entry.1, transfer entry⟩

/-- The two functions of a structure are printed as its moves ask. -/
theorem prints_structWireStrokes {found transfer} (name : String)
    (h : ∀ entry ∈ found, entry.2.Realizes (transfer entry)) :
    Prints 0 (structWireStrokes ⟨name, found.map fun entry => (entry.1.name, entry.2)⟩)
      (structLines name (movesOf transfer found) ++ [""]) := by
  have hpack : found.map (fun entry =>
        indented 2 (entry.2.pack (.place ("self." ++ entry.1.name)) ++ "?;")) =
      found.map fun entry =>
        indented 2 ((transfer entry).pack (.place ("self." ++ entry.1.name)) ++ "?;") :=
    map_congr_left fun entry hentry => by rw [(h entry hentry).pack]
  have hunpack : found.map (fun entry =>
        indented 3 (entry.1.name ++ (": " ++ (entry.2.unpack ++ "?,")))) =
      found.map fun entry =>
        indented 3 (entry.1.name ++ (": " ++ ((transfer entry).unpack ++ "?,"))) :=
    map_congr_left fun entry hentry => by rw [(h entry hentry).unpack]
  intro rest
  simp [structWireStrokes, structLines, movesOf, Function.comp_def, hpack, hunpack]

/-- The two functions of a type definition are printed as its move asks. -/
theorem prints_aliasWireStrokes (name : String) {layout : Layout} {transfer}
    (h : layout.Realizes transfer) :
    Prints 0 (aliasWireStrokes ⟨name, layout⟩) (aliasLines name transfer ++ [""]) := by
  intro rest
  simp [aliasWireStrokes, aliasLines, h.pack, h.unpack]

section

variable {plan : UnionPlan} {transfer : Arm → Transfer}

/-- A choice among arms is printed arm by arm. -/
theorem prints_choiceStrokes (subject : String) {branch lines}
    (h : ∀ arm ∈ plan.arms, Prints 3 (branch arm) (lines ⟨arm.field, transfer arm⟩)) :
    Prints 2 (choiceStrokes plan subject branch)
      (choiceLines subject (plan.arms.map fun arm => ⟨arm.field, transfer arm⟩) lines) := by
  have harms := prints_flatMap h
  intro rest
  by_cases hnone : plan.arms = []
  · simp [choiceStrokes, choiceLines, hnone]
  · simp [choiceStrokes, choiceLines, hnone, harms _, flatMap_map]

theorem prints_packStrokes (plan : UnionPlan) {arm : Arm} {transfer}
    (h : arm.layout.Realizes transfer) :
    Prints 3 (packStrokes plan arm) (packArmLines plan.name ⟨arm.field, transfer⟩) := by
  intro rest
  simp [packStrokes, packArmLines, Arm.name, h.pack]

theorem prints_unpackText {arm : Arm} {transfer} (h : arm.layout.Realizes transfer) :
    Prints 3 [.line (unpackText arm)] (unpackArmLines ⟨arm.field, transfer⟩) := by
  have hheld : arm.unpack = heldArm transfer := by
    have hboxed : arm.isBoxed = transfer.isOwn := h.boxed arm.field
    rw [Arm.unpack, heldArm, hboxed, h.unpack]
    rfl
  intro rest
  rw [unpackText, hheld]
  rfl

/-- The two functions of a union are printed as its moves ask. -/
theorem prints_unionWireStrokes {tag} (htag : plan.layout.Realizes tag)
    (harms : ∀ arm ∈ plan.arms, arm.layout.Realizes (transfer arm)) :
    Prints 0 (unionWireStrokes plan)
      (unionLines plan.name plan.tag tag (plan.arms.map fun arm =>
        ⟨arm.field, transfer arm⟩) ++ [""]) := by
  have hpack := prints_choiceStrokes "self" fun arm harm =>
    prints_packStrokes plan (harms arm harm)
  have hunpack := prints_choiceStrokes "result" fun arm harm =>
    prints_unpackText (harms arm harm)
  intro rest
  simp [unionWireStrokes, unionLines, htag.pack, htag.unpack, hpack _, hunpack _]

end

end

/-! ### Plans -/

variable {bundle : Bundle}

/-- The layouts of some fields were found. -/
def Found (bundle : Bundle) (found : List (Field × Layout)) : Prop :=
  ∀ entry ∈ found, ∃ context, bundle.layout entry.1.type entry.1.form context = .ok entry.2

/-- Layouts that are found one after the other stand in the order of their
fields. -/
theorem exists_found_of_mapM {context : Field → String} {fields : List Field}
    {results : List (String × Layout)} (h : fields.mapM (fun field => do
      return (field.name, ← bundle.layout field.type field.form (context field))) =
        .ok results) :
    ∃ found : List (Field × Layout), found.map Prod.fst = fields ∧ Found bundle found ∧
      results = found.map fun entry => (entry.1.name, entry.2) := by
  obtain ⟨found, rfl, rfl, hfound⟩ := exists_zip_of_mapM h
  have hentry : ∀ entry ∈ found, entry.2 = (entry.1.name, entry.2.2) ∧
      bundle.layout entry.1.type entry.1.form (context entry.1) = .ok entry.2.2 := by
    rintro ⟨field, result⟩ hmem
    obtain ⟨layout, hlayout, heq⟩ := bind_eq_ok.mp (hfound _ hmem)
    obtain rfl : (field.name, layout) = result := Except.ok.inj heq
    exact ⟨rfl, hlayout⟩
  refine ⟨found.map fun entry => (entry.1, entry.2.2), by rw [map_map]; rfl,
    forall_mem_map.mpr fun entry hmem => ⟨_, (hentry entry hmem).2⟩, ?_⟩
  rw [map_map]
  exact map_congr_left fun entry hmem => (hentry entry hmem).1

/-- The plan of a structure has the layouts of its fields, in order. -/
theorem exists_found_of_structPlan {decl : StructDecl} {plan : StructPlan}
    (h : structPlan bundle decl = .ok plan) :
    plan.name = decl.name ∧ ∃ found : List (Field × Layout),
    found.map Prod.fst = decl.fields ∧
      Found bundle found ∧ plan.fields = found.map fun entry => (entry.1.name, entry.2) := by
  obtain ⟨fields, hfields, h⟩ := bind_eq_ok.mp h
  cases h
  exact ⟨rfl, exists_found_of_mapM hfields⟩

/-! ### Modules -/

variable {options : Options} {front back strokes : List Stroke} {lines : List String}

/-- What is printed somewhere in a part of the module stands in the emitted
text. -/
theorem exists_text_of_prints (h : (render options bundle).2 = none)
    (hpart : front ++ (strokes ++ back) ∈ moduleParts options bundle) (hfront : Level front)
    (hprints : Prints 0 strokes lines) :
    ∃ before after, (render options bundle).1 = Doc.text (before ++ lines ++ after) := by
  obtain ⟨earlier, later, hparts⟩ := append_of_mem hpart
  have hearlier : Level earlier.flatten := level_flatten fun part hmem =>
    level_of_mem_moduleParts (hparts ▸ mem_append_left _ hmem)
  have hsplit : moduleStrokes options bundle =
      (earlier.flatten ++ front) ++ (strokes ++ (back ++ later.flatten)) := by
    simp [moduleStrokes, hparts]
  rw [render, hsplit, (hearlier.append hfront).print_append, hprints] at h ⊢
  rw [failure_andThen_eq, Option.or_eq_none_iff] at h
  refine ⟨(print 0 (earlier.flatten ++ front)).content,
    (print 0 (back ++ later.flatten)).content, congrArg Doc.text ?_⟩
  simp only [andThen, h.1, wrote, append_assoc]

/-- What is emitted for a declaration is a part of the module. -/
theorem mem_map_checkedStrokes {α β : Type} {items : List α} {plan : α → Except EmitError β}
    {strokes : β → List Stroke} {item : α} {value : β} (hitem : item ∈ items)
    (hplan : plan item = .ok value) :
    strokes value ∈ items.map fun item => checkedStrokes (plan item) strokes :=
  mem_map.mpr ⟨item, hitem, by rw [hplan, checkedStrokes]⟩

/-- Whatever layouts are found, there are transfers that are prescribed and
that they realize. -/
theorem exists_transfers {α : Type} {items : List α} {field : α → Field} {layout : α → Layout}
    (h : ∀ item ∈ items, ∃ context,
      bundle.layout (field item).type (field item).form context = .ok (layout item)) :
    ∃ transfer : α → Transfer, ∀ item ∈ items,
      Move.Prescribed bundle ⟨field item, transfer item⟩ ∧
        (layout item).Realizes (transfer item) := by
  have htransfers : ∀ item ∈ items, ∃ transfer,
      Move.Prescribed bundle ⟨field item, transfer⟩ ∧ (layout item).Realizes transfer := by
    intro item hitem
    obtain ⟨context, hlayout⟩ := h item hitem
    exact Bundle.exists_transfer_of_layout hlayout
  have : Nonempty Transfer := ⟨.own ""⟩
  choose! transfer htransfer using htransfers
  exact ⟨transfer, htransfer⟩

/-- Lines with an empty one behind them stand in a text. -/
theorem text_of_spaced {text}
    (h : ∃ before after, text = Doc.text (before ++ (lines ++ [""]) ++ after)) :
    ∃ before after, text = Doc.text (before ++ lines ++ after) := by
  obtain ⟨before, after, rfl⟩ := h
  exact ⟨before, "" :: after, by simp only [append_assoc, singleton_append]⟩

/-- The functions of a structure that passes stand in the emitted text. -/
theorem mirror_of_struct (h : (render options bundle).2 = none) {decl : StructDecl}
    (hdecl : decl ∈ bundle.structs)
    {plan : StructPlan} (hplan : structPlan bundle decl = .ok plan) :
    ∃ moves : List Move,
    moves.map Move.field = decl.fields ∧ (∀ move ∈ moves, move.Prescribed bundle) ∧
      ∃ before after,
        (render options bundle).1 =
          Doc.text (before ++ structLines decl.name moves ++ after) := by
  obtain ⟨hname, found, hfields, hfound, hplanFields⟩ := exists_found_of_structPlan hplan
  obtain ⟨transfer, htransfer⟩ := exists_transfers hfound
  have hpart : structStrokes options.structural plan ∈ moduleParts options bundle := by
    simp only [moduleParts, mem_append]
    exact .inl (.inl (.inl (.inr (mem_map_checkedStrokes hdecl hplan))))
  refine ⟨movesOf transfer found, ?_, ?_, ?_⟩
  · rw [movesOf, map_map, ← hfields]
    rfl
  · intro move hmove
    obtain ⟨entry, hentry, rfl⟩ := mem_map.mp hmove
    exact (htransfer entry hentry).1
  · obtain ⟨name, fields⟩ := plan
    obtain rfl : name = decl.name := hname
    obtain rfl := hplanFields
    exact text_of_spaced (exists_text_of_prints h hpart (complete_structTypeStrokes _).level
      (prints_structWireStrokes _ fun entry hentry => (htransfer entry hentry).2))

/-- The functions of a type definition that passes stand in the emitted
text. -/
theorem mirror_of_alias (h : (render options bundle).2 = none) {decl : Field}
    (hdecl : decl ∈ bundle.typedefs)
    {plan : AliasPlan} (hplan : aliasPlan bundle decl = .ok plan) :
    ∃ transfer, bundle.Prescribes decl.type decl.form transfer ∧
      ∃ before after,
        (render options bundle).1 =
          Doc.text (before ++ aliasLines decl.name transfer ++ after) := by
  have hpart : aliasStrokes options.structural plan ∈ moduleParts options bundle := by
    simp only [moduleParts, mem_append]
    exact .inl (.inr (mem_map_checkedStrokes hdecl hplan))
  obtain ⟨layout, hlayout, rfl⟩ := map_eq_ok.mp hplan
  obtain ⟨transfer, hprescribed, hrealized⟩ := Bundle.exists_transfer_of_layout hlayout
  exact ⟨transfer, hprescribed, text_of_spaced (exists_text_of_prints h hpart
    (complete_aliasTypeStrokes _).level (prints_aliasWireStrokes decl.name hrealized))⟩

/-- The functions of a union that passes stand in the emitted text. -/
theorem mirror_of_union (h : (render options bundle).2 = none) {decl : UnionDecl}
    (hdecl : decl ∈ bundle.unions)
    {plan : UnionPlan} (hplan : unionPlan bundle decl = .ok plan) :
    ∃ tag arms, bundle.Prescribes decl.discriminant.type .plain tag ∧
      (∀ move ∈ arms, move.Prescribed bundle) ∧ (arms.map fun move => move.field.name).Nodup ∧
      (∀ field, field ∈ arms.map Move.field ↔ ∃ case ∈ decl.cases, case.field? = some field) ∧
      ∃ before after, (render options bundle).1 =
        Doc.text
          (before ++ unionLines decl.name decl.discriminant.name tag arms ++ after) := by
  obtain ⟨hname, htag, ⟨context, hlayout⟩, harms⟩ := armsOf_of_unionPlan hplan
  obtain ⟨tag, hprescribed, hrealized⟩ := Bundle.exists_transfer_of_layout hlayout
  obtain ⟨transfer, htransfer⟩ := exists_transfers harms.layouts
  have hpart : unionStrokes options.structural plan ∈ moduleParts options bundle := by
    simp only [moduleParts, mem_append]
    exact .inl (.inl (.inr (mem_map_checkedStrokes hdecl hplan)))
  refine ⟨tag, plan.arms.map fun arm => ⟨arm.field, transfer arm⟩, hprescribed,
    ?_, ?_, ?_, ?_⟩
  · intro move hmove
    obtain ⟨arm, harm, rfl⟩ := mem_map.mp hmove
    exact (htransfer arm harm).1
  · rw [map_map]
    exact harms.distinct
  · intro field
    rw [map_map]
    exact (harms.mem_iff field).trans mem_filterMap
  · rw [← hname, ← htag]
    have hfront := (complete_unionTypeStrokes plan).append (complete_armStrokes plan)
    rw [unionStrokes, flatten_cons, flatten_cons, ← append_assoc] at hpart
    exact text_of_spaced (exists_text_of_prints h hpart hfront.level
      (prints_unionWireStrokes hrealized fun arm harm => (htransfer arm harm).2))

/-- **Packing and unpacking mirror each other.**  In the emitted text of a
bundle stand, line by line, the two functions of every structure, type
definition and union, made from one transfer for each field.  Each transfer
is the one that the type and the form of the field prescribe.  A structure
moves its fields in the order of their declaration, each once; a union moves
its discriminant, and has one arm for each distinct field of its cases. -/
theorem mirror_of_render (h : (render options bundle).2 = none) :
    (∀ decl ∈ bundle.structs, ∃ moves : List Move,
      moves.map Move.field = decl.fields ∧ (∀ move ∈ moves, move.Prescribed bundle) ∧
        ∃ before after,
          (render options bundle).1 =
            Doc.text (before ++ structLines decl.name moves ++ after)) ∧
    (∀ decl ∈ bundle.typedefs, ∃ transfer,
      bundle.Prescribes decl.type decl.form transfer ∧
        ∃ before after,
          (render options bundle).1 =
            Doc.text (before ++ aliasLines decl.name transfer ++ after)) ∧
    (∀ decl ∈ bundle.unions, ∃ tag arms,
      bundle.Prescribes decl.discriminant.type .plain tag ∧
        (∀ move ∈ arms, move.Prescribed bundle) ∧
        (arms.map fun move => move.field.name).Nodup ∧
        (∀ field, field ∈ arms.map Move.field ↔
          ∃ case ∈ decl.cases, case.field? = some field) ∧
        ∃ before after, (render options bundle).1 =
          Doc.text (before ++ unionLines decl.name decl.discriminant.name tag arms ++
            after)) := by
  have hpasses : Passes bundle := passes_of_generate (generate_eq_ok.mpr ⟨rfl, h⟩)
  refine ⟨fun decl hdecl => ?_, fun decl hdecl => ?_, fun decl hdecl => ?_⟩
  · obtain ⟨plan, hplan⟩ := hpasses.structs decl hdecl
    exact mirror_of_struct h hdecl hplan
  · obtain ⟨plan, hplan⟩ := hpasses.typedefs decl hdecl
    exact mirror_of_alias h hdecl hplan
  · obtain ⟨plan, hplan⟩ := hpasses.unions decl hdecl
    exact mirror_of_union h hdecl hplan

/-- A list of labels with a bound on their length. -/
def labelList : Bundle :=
  ⟨[⟨"MAX", .literal "8"⟩], [],
    [⟨"node", [⟨"value", .int, .plain⟩, ⟨"label", .string, .array (some (.name "MAX")) false⟩,
      ⟨"next", .named "node", .pointer⟩]⟩], [], [], []⟩

/-- Its functions, with the bound on both sides. -/
theorem mirror_of_render_labelList :
    (render .standard labelList).2 = none ∧
      ∃ before after, (render .standard labelList).1 = Doc.text (before ++ [
        "impl Xdr for node \x7b",
        "    fn pack(&self, packer: &mut Packer) -> ::xdr_runtime::Result<()> \x7b",
        "        packer.pack_int(self.value)?;",
        "        packer.pack_string(&self.label, Some(constant::MAX as u32))?;",
        "        packer.pack_optional(self.next.as_deref(), |packer, item| item.pack(packer))?;",
        "        Ok(())",
        "    \x7d",
        "",
        "    fn unpack(unpacker: &mut Unpacker<'_>) -> ::xdr_runtime::Result<Self> \x7b",
        "        Ok(node \x7b",
        "            value: unpacker.unpack_int()?,",
        "            label: unpacker.unpack_string(Some(constant::MAX as u32))?,",
        "            next: unpacker.unpack_optional(|unpacker| node::unpack(unpacker).map(Box::new))?,",
        "        \x7d)",
        "    \x7d",
        "\x7d"] ++ after) := by
  have hrender : (render .standard labelList).2 = none := by decide
  refine ⟨hrender, ?_⟩
  obtain ⟨hstructs, -, -⟩ := mirror_of_render hrender
  obtain ⟨moves, hfields, hprescribed, htext⟩ := hstructs _ (.head _)
  obtain ⟨⟨_, first⟩, _, rfl, rfl, hlater⟩ := map_eq_cons_iff.mp hfields
  obtain ⟨⟨_, second⟩, _, rfl, rfl, hlast⟩ := map_eq_cons_iff.mp hlater
  obtain ⟨⟨_, third⟩, _, rfl, rfl, hnone⟩ := map_eq_cons_iff.mp hlast
  obtain rfl := map_eq_nil_iff.mp hnone
  rw [forall_mem_cons, forall_mem_cons, forall_mem_cons] at hprescribed
  obtain ⟨hfirst, hsecond, hthird, -⟩ := hprescribed
  have hmax : labelList.LengthText (.name "MAX") ("constant::MAX" ++ " as u32") :=
    .name (by decide)
  obtain rfl := hfirst.unique (.scalar rfl)
  obtain rfl := hsecond.unique (.limitedBlob rfl (.bounded hmax))
  obtain rfl := hthird.unique (.optional (.declared ⟨_, .head _, rfl⟩))
  exact htext

end Xdr.Emit
