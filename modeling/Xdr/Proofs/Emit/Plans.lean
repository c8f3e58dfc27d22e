import Xdr.Proofs.Bundle.Inert
import Xdr.Proofs.Emit.Options
import Xdr.Proofs.Emit.Phrasing
import Xdr.Proofs.Emit.Selection

/-!
# Plans of inert bundles

What a check finds in a bundle whose names and literals are inert is sound:
a plan takes names and literals over as they are, and refers to what others
define by their names.  So all texts of the emitted module are sound, and
the items of the runtime that they use are those that the module imports.

## Main Statements

* `Bundle.Inert.layout` — the layout of a field
* `Bundle.Inert.enumPlan`, `Bundle.Inert.structPlan`,
  `Bundle.Inert.aliasPlan`, `Bundle.Inert.unionPlan`,
  `Bundle.Inert.versionPlan` — the plans of declarations
* `Emit.runs_bodyStrokes`, `Emit.runs_moduleStrokes` — the lines of an
  emitted module
-/

namespace Xdr

open Case Emit List Sound Stroke Xdr.Field

variable {allowed : List String} {bundle : Bundle} {type : TypeRef}

variable {routine : String}

/-! ### Transfers -/

theorem Emit.sound_intercalate {items} (h : ∀ item ∈ items, Sound allowed item) :
    Sound allowed (", ".intercalate items) := by
  induction items with
  | nil => exact sound_empty
  | cons item items ih =>
    obtain ⟨hitem, hothers⟩ := forall_mem_cons.mp h
    cases items with
    | nil => rwa [String.intercalate_singleton]
    | cons next items =>
      rw [String.intercalate_cons_cons]
      exact sound_filled [none, some _, none] [_, _] ⟨hitem, ih hothers⟩ rfl

/-- The two expressions of a transfer are sound. -/
structure Transfer.Sound (allowed : List String) (transfer : Transfer) : Prop where
  pack : ∀ {access : Access}, Emit.Sound allowed access.target →
    Emit.Sound allowed (transfer.pack access)
  unpack : Emit.Sound allowed transfer.unpack

/-- The two functions of an item are sound. -/
structure Element.Sound (allowed : List String) (item : Element) : Prop where
  packer : Emit.Sound allowed item.packer
  unpacker : Emit.Sound allowed item.unpacker

/-- The routines of the runtime that move values. -/
def routines : List String :=
  ["int", "uint", "hyper", "uhyper", "float", "double", "bool", "string", "opaque", "fstring",
    "fopaque", "array", "farray", "optional"]

theorem mem_routines_of_scalar (h : type.scalarRoutine? = some routine) :
    routine ∈ routines := by
  cases type <;> cases h <;> decide

theorem mem_routines_of_blob (h : type.blobRoutine? = some routine) (fixed : Bool) :
    Bundle.marked fixed routine ∈ routines := by
  cases type <;> cases h <;> cases fixed <;> decide

/-- The name of a routine goes on with the word before it. -/
theorem sound_routine (h : routine ∈ routines) {lead}
    (hcheck : (routines.all fun routine =>
      Template.check [] [] [some (lead ++ routine.toList)]) = true) :
    Sound allowed (String.ofList lead ++ routine) := by
  have hsound := @sound_plain allowed [] _ (all_eq_true.mp hcheck routine h)
  rwa [String.ofList_append, String.ofList_toList] at hsound

theorem sound_value {access : Access} (h : Sound allowed access.target)
    (limit : Option String)
    (item : Option Element) : Sound allowed (Transfer.value access limit item) := by
  unfold Transfer.value
  split
  · cases access with
    | place expr => exact h
    | reference expr => exact sound_filled [some _, none] [expr] h rfl
  · split
    · exact sound_before h rfl
    · exact sound_before h rfl
  · cases access with
    | place expr => exact sound_filled [some _, none] [expr] h rfl
    | reference expr => exact h

/-- **The call of a routine** is made of its limit and its item. -/
theorem Transfer.sound_call {limit : Option String} {item : Option Element}
    (hroutine : routine ∈ routines) (hlimit : ∀ text ∈ limit.toList, Emit.Sound allowed text)
    (hitem : ∀ element ∈ item.toList, element.Sound allowed) :
    (call routine limit item).Sound allowed := by
  constructor
  · intro access haccess
    refine sound_filled [none, some _, none, some _] [_, _] ⟨sound_routine hroutine rfl,
      sound_intercalate ?_⟩ rfl
    rw [forall_mem_cons, forall_mem_append, Option.toList_map, forall_mem_map]
    exact ⟨sound_value haccess limit item, hlimit,
      fun element helement => (hitem element helement).packer⟩
  · refine sound_filled [none, some _, none, some _] [_, _] ⟨sound_routine hroutine rfl,
      sound_intercalate ?_⟩ rfl
    rw [forall_mem_append, Option.toList_map, forall_mem_map]
    refine ⟨hlimit, fun element helement => ?_⟩
    rw [unpackItem]
    split
    · exact sound_before (hitem element helement).unpacker rfl
    · exact (hitem element helement).unpacker

/-! ### Resolution -/

theorem Field.inert_iff {field : Field} :
    (∀ lexeme ∈ field.lexemes, lexeme.Inert) ↔ Sound [] field.name ∧
    (∀ lexeme ∈ field.type.lexemes, lexeme.Inert) ∧ ∀ lexeme ∈ field.form.lexemes,
    lexeme.Inert := by
  rw [lexemes, forall_mem_cons, forall_mem_append]
  rfl

/-- The field of a case is made of what the case is made of. -/
theorem Case.inert_field {case : Case} (h : ∀ lexeme ∈ case.lexemes, lexeme.Inert) {field}
    (hfield : case.field? = some field) : ∀ lexeme ∈ field.lexemes, lexeme.Inert := by
  simp only [lexemes, forall_mem_append] at h
  obtain ⟨⟨⟨-, htype⟩, hname⟩, hform⟩ := h
  rw [field?] at hfield
  split at hfield
  · next type name hsome hnamed =>
    cases hfield
    rw [hsome] at htype
    rw [hnamed] at hname
    exact inert_iff.mpr ⟨hname _ mem_cons_self, by simpa using htype, hform⟩
  · cases hfield

theorem TypeRef.sound_signature (htype : ∀ lexeme ∈ type.lexemes, lexeme.Inert) :
    Sound allowed type.signature := by
  cases type with
  | named name => exact any (htype _ mem_cons_self)
  | _ => exact sound_plain rfl

theorem TypeRef.sound_held (htype : ∀ lexeme ∈ type.lexemes, lexeme.Inert) (form : Form) :
    Sound allowed (type.held form) := by
  have hsignature : Sound allowed type.signature := sound_signature htype
  cases form with
  | plain => exact hsignature
  | array length fixed =>
    rw [held]
    split
    · exact hsignature
    · exact sound_between hsignature rfl
  | pointer =>
    rw [held]
    split
    · exact sound_between hsignature rfl
    · exact sound_between hsignature rfl

namespace Bundle

variable (h : bundle.Inert)
include h

theorem Inert.const {decl} (hdecl : decl ∈ bundle.consts) :
    Sound [] decl.name ∧ decl.value.lexeme.Inert := by
  have hlexemes := h .const (.const decl) (mem_map_of_mem hdecl)
  exact ⟨hlexemes _ mem_cons_self, hlexemes _ (mem_cons_of_mem _ mem_cons_self)⟩

theorem Inert.enum {decl} (hdecl : decl ∈ bundle.enums) :
    Sound [] decl.name ∧ ∀ member ∈ decl.members, Sound [] member.name ∧
      member.value.lexeme.Inert := by
  have hlexemes := h .enum (.enum decl) (mem_map_of_mem hdecl)
  rw [Decl.lexemes, forall_mem_cons, forall_mem_flatMap] at hlexemes
  refine ⟨hlexemes.1, fun member hmember => ?_⟩
  have hparts := hlexemes.2 member hmember
  exact ⟨hparts _ mem_cons_self, hparts _ (mem_cons_of_mem _ mem_cons_self)⟩

/-- What emitted code refers to by a name is defined in the bundle. -/
theorem Inert.reference {name reference}
    (hreference : bundle.reference? name = some reference) :
    Sound allowed reference.text := by
  rw [reference?, Option.map_eq_some_iff] at hreference
  obtain ⟨definition, hlast, rfl⟩ := hreference
  have hmem : definition ∈ bundle.definitions := mem_of_mem_filter (mem_of_getLast? hlast)
  rw [definitions, mem_append, mem_append] at hmem
  rcases hmem with (htruth | hconst) | hmember
  · rcases mem_cons.mp htruth with rfl | htruth
    · exact sound_plain rfl
    · obtain rfl := mem_singleton.mp htruth
      exact sound_plain rfl
  · obtain ⟨decl, hdecl, rfl⟩ := mem_map.mp hconst
    exact sound_filled [some _, none] [_] (h.const hdecl).1.any rfl
  · obtain ⟨decl, hdecl, hmember⟩ := mem_flatMap.mp hmember
    obtain ⟨member, hin, rfl⟩ := mem_map.mp hmember
    obtain ⟨hname, hmembers⟩ := h.enum hdecl
    exact sound_filled [none, some _, none] [_, _] ⟨hname.any,
      (hmembers member hin).1.any⟩ rfl

theorem Inert.expression {value : IntExpr} (hvalue : value.lexeme.Inert) {cast}
    (hcast : Sound allowed cast) :
    Sound allowed (bundle.expression cast value) := by
  cases value with
  | literal digits => exact any hvalue
  | name name =>
    rw [Bundle.expression, referent?]
    split
    · next reference hreference =>
      exact sound_filled [none, some _, none] [_, _] ⟨h.reference hreference, hcast⟩ rfl
    · exact any hvalue

theorem Inert.limit {length fixed text}
    (hform : ∀ lexeme ∈ (Form.array length fixed).lexemes, lexeme.Inert)
    (hlimit : bundle.Limit length fixed text) : Sound allowed text := by
  have hlength : ∀ {value text}, value.lexeme.Inert → bundle.LengthText value text →
    Sound allowed text := by
    intro value text hvalue htext
    cases htext with
    | literal digits => exact any hvalue
    | name hfound =>
      rw [find?_expressions, Option.map_eq_some_iff] at hfound
      obtain ⟨reference, hreference, rfl⟩ := hfound
      exact sound_before (h.reference hreference) rfl
  cases hlimit with
  | fixed htext => exact hlength (hform _ mem_cons_self) htext
  | bounded htext => exact sound_between (hlength (hform _ mem_cons_self) htext) rfl
  | unbounded => exact sound_plain rfl

section Fields

variable (htype : ∀ lexeme ∈ type.lexemes, lexeme.Inert)
include htype

omit h in
theorem Moves.sound {item} (hitem : bundle.Moves type item) : item.Sound allowed := by
  cases hitem with
  | scalar hroutine =>
    have hmem := mem_routines_of_scalar hroutine
    constructor
    · exact sound_before (sound_routine hmem rfl) rfl
    · exact sound_before (sound_routine hmem rfl) rfl
  | blob hroutine =>
    have hmem := mem_routines_of_blob hroutine false
    constructor
    · exact sound_before (sound_routine hmem rfl) rfl
    · exact sound_before (sound_routine hmem rfl) rfl
  | declared => exact ⟨sound_plain rfl, sound_between (any (htype _ mem_cons_self)) rfl⟩

/-- **The transfer of a field** is made of the name of its type and the
expression of its length. -/
theorem Inert.transfer {form : Form} (hform : ∀ lexeme ∈ form.lexemes, lexeme.Inert)
    {transfer : Transfer}
    (hprescribes : bundle.Prescribes type form transfer) : transfer.Sound allowed := by
  have hnone : ∀ {α : Type} {P : α → Prop}, ∀ value ∈ (none : Option α).toList, P value := by
    simp
  cases hprescribes with
  | scalar hroutine => exact Transfer.sound_call (mem_routines_of_scalar hroutine) hnone hnone
  | own =>
    exact ⟨fun haccess => sound_before haccess rfl,
      sound_before (any (htype _ mem_cons_self)) rfl⟩
  | blob hroutine =>
    refine Transfer.sound_call (mem_routines_of_blob hroutine false)
      (forall_mem_singleton.mpr ?_) hnone
    exact sound_plain rfl
  | limitedBlob hroutine hlimit =>
    exact Transfer.sound_call (mem_routines_of_blob hroutine _)
      (forall_mem_singleton.mpr (h.limit hform hlimit)) hnone
  | @array _ _ _ _ fixed _ hitem hlimit =>
    refine Transfer.sound_call ?_ (forall_mem_singleton.mpr (h.limit hform hlimit))
      (forall_mem_singleton.mpr (hitem.sound htype))
    cases fixed <;> decide
  | optional hitem =>
    exact Transfer.sound_call (by decide) hnone (forall_mem_singleton.mpr (hitem.sound htype))

/-- Layouts of inert types and lengths are sound. -/
theorem Inert.layout {form : Form} (hform : ∀ lexeme ∈ form.lexemes, lexeme.Inert)
    {context layout} (hlayout : bundle.layout type form context = .ok layout) :
    layout.Sound allowed := by
  obtain ⟨transfer, hprescribes, hrealizes⟩ := exists_transfer_of_layout hlayout
  have hsound : transfer.Sound allowed := h.transfer htype hform hprescribes
  refine ⟨?_, fun haccess => ?_, ?_⟩
  · rw [host_of_layout hlayout]
    exact TypeRef.sound_held htype form
  · rw [hrealizes.pack]
    exact hsound.pack haccess
  · rw [hrealizes.unpack]
    exact hsound.unpack

end Fields

omit h in
/-- Each type definition that is opened adds a component. -/
theorem sound_opened {place} (hplace : Sound allowed place) (depth : Nat) :
    Sound allowed (place ++ String.join (replicate depth ".0")) := by
  induction depth generalizing place with
  | zero =>
    rw [replicate_zero, String.join_nil, String.append_empty]
    exact hplace
  | succ depth ih =>
    rw [replicate_succ, String.join_cons, ← String.append_assoc]
    exact ih (sound_before hplace rfl)

/-! ### Plans -/

omit h in
/-- The numbers seen so far are no part of what is found. -/
theorem sound_memberTexts {members}
    (hmembers : ∀ member ∈ members, Sound [] member.name ∧ member.value.lexeme.Inert)
    {enum seen texts} (h : memberTexts bundle enum seen members = .ok texts) :
    ∀ text ∈ texts, Sound allowed text.1 ∧ Sound allowed text.2 := by
  induction members generalizing seen texts with
  | nil =>
    cases h
    exact forall_mem_nil _
  | cons member members ih =>
    obtain ⟨⟨hmember, hvalue⟩, hothers⟩ := forall_mem_cons.mp hmembers
    obtain ⟨text, htext, h⟩ := bind_eq_ok.mp h
    obtain ⟨seen, -, h⟩ := bind_eq_ok.mp h
    obtain ⟨others, hrest, h⟩ := bind_eq_ok.mp h
    cases h
    refine forall_mem_cons.mpr ⟨⟨hmember.any, ?_⟩, ih hothers hrest⟩
    unfold memberText at htext
    split at htext
    · next hliteral =>
      cases htext
      rw [hliteral] at hvalue
      exact any hvalue
    · cases htext
      exact (sound_toString _).any
    · cases htext

/-- **Enumerations.** -/
theorem Inert.enumPlan {decl} (hdecl : decl ∈ bundle.enums) {plan}
    (hplan : enumPlan bundle decl = .ok plan) : plan.Sound allowed := by
  obtain ⟨hname, hmembers⟩ := h.enum hdecl
  obtain ⟨texts, htexts, rfl⟩ := map_eq_ok.mp hplan
  exact ⟨hname.any, sound_memberTexts hmembers htexts⟩

/-- **Structures.** -/
theorem Inert.structPlan {decl} (hdecl : decl ∈ bundle.structs) {plan}
    (hplan : structPlan bundle decl = .ok plan) : plan.Sound allowed := by
  have hlexemes := h .struct (.struct decl) (mem_map_of_mem hdecl)
  rw [Decl.lexemes, forall_mem_cons, forall_mem_flatMap] at hlexemes
  obtain ⟨hname, found, hfound, hlayouts, hfields⟩ := exists_found_of_structPlan hplan
  constructor
  · rw [hname]
    exact any hlexemes.1
  · rw [hfields]
    refine forall_mem_map.mpr fun entry hentry => ?_
    obtain ⟨context, hlayout⟩ := hlayouts entry hentry
    obtain ⟨hfield, htype, hform⟩ :=
      inert_iff.mp (hlexemes.2 entry.1 (hfound ▸ mem_map_of_mem hentry))
    exact ⟨hfield.any, h.layout htype hform hlayout⟩

/-- **Type definitions.** -/
theorem Inert.aliasPlan {decl} (hdecl : decl ∈ bundle.typedefs) {plan}
    (hplan : aliasPlan bundle decl = .ok plan) : plan.Sound allowed := by
  obtain ⟨hname, htype, hform⟩ :=
    inert_iff.mp (h .typeDef (.typeDef decl) (mem_map_of_mem hdecl))
  obtain ⟨layout, hlayout, rfl⟩ := map_eq_ok.mp hplan
  exact ⟨hname.any, h.layout htype hform hlayout⟩

/-- **The plan of a union** is made of its discriminant and its cases. -/
theorem Inert.unionPlan {decl : UnionDecl} (hdecl : decl ∈ bundle.unions) {plan : UnionPlan}
    (hplan : unionPlan bundle decl = .ok plan) : plan.Sound allowed := by
  have hlexemes := h .union (.union decl) (mem_map_of_mem hdecl)
  simp only [Decl.lexemes, forall_mem_append, forall_mem_cons, forall_mem_flatMap] at hlexemes
  obtain ⟨⟨⟨hname, htag, -⟩, htype⟩, hcases⟩ := hlexemes
  obtain ⟨hplanName, hplanTag, ⟨context, hlayout⟩, harms⟩ := armsOf_of_unionPlan hplan
  obtain ⟨-, hbranches, hfallback, -, hkey⟩ := gathers_of_unionPlan hplan
  have htarget : ∀ case ∈ decl.cases, ∀ arm ∈ case.target?, Sound allowed arm := by
    intro case hcase arm harm
    obtain ⟨field, hfield, rfl⟩ := Option.map_eq_some_iff.mp harm
    exact (inert_iff.mp (inert_field (hcases case hcase) hfield)).1.any
  refine ⟨hplanName ▸ any hname, hplanTag ▸ any htag,
    h.layout htype (forall_mem_nil _) hlayout, ?_, fun arm harm => ?_, ?_, ?_⟩
  · unfold keyText at hkey
    split at hkey
    · rw [← Except.ok.inj hkey]
      exact sound_before (sound_opened (sound_self (any htag)) _) rfl
    · cases hkey
    · cases hkey
  · have hfield : arm.field ∈ decl.fields := (harms.mem_iff _).mp (mem_map_of_mem harm)
    obtain ⟨case, hcase, hsome⟩ := mem_filterMap.mp hfield
    obtain ⟨hfieldName, hfieldType, hform⟩ :=
      inert_iff.mp (inert_field (hcases case hcase) hsome)
    obtain ⟨context, hlayout⟩ := harms.layouts arm harm
    exact ⟨hfieldName.any, h.layout hfieldType hform hlayout⟩
  · rw [hbranches, forall_mem_map, forall_mem_map]
    intro choice hchoice
    obtain ⟨case, hcase, hsome⟩ := mem_filterMap.mp hchoice
    rw [choice?] at hsome
    split at hsome
    · next value hlabel =>
      cases hsome
      have hlexemes := hcases case hcase
      simp only [Case.lexemes, forall_mem_append, hlabel] at hlexemes
      exact ⟨h.expression (hlexemes.1.1.1 _ mem_cons_self) (sound_plain rfl),
        htarget case hcase⟩
    · cases hsome
  · rw [hfallback]
    intro arm harm
    obtain ⟨case, hcase, harm⟩ := Option.bind_eq_some_iff.mp harm
    exact htarget case (mem_of_find?_eq_some hcase) arm harm

/-- **Versions.** -/
theorem Inert.versionPlan {program} (hprogram : Sound allowed program)
    {decl : VersionDecl} (hdecl : ∀ lexeme ∈ decl.lexemes, lexeme.Inert) {plan}
    (hplan : versionPlan bundle program decl = .ok plan) : plan.Sound allowed := by
  simp only [VersionDecl.lexemes, forall_mem_append, forall_mem_cons,
    forall_mem_flatMap] at hdecl
  obtain ⟨⟨hname, hnumber, -⟩, hprocs⟩ := hdecl
  have hpath : ∀ {front back : String}, Sound allowed front → Sound allowed back →
      Sound allowed (front ++ "." ++ back) := fun hfront hback =>
    sound_filled [none, some _, none] [_, _] ⟨hfront, hback⟩ rfl
  rw [versionPlan_eq hplan]
  refine ⟨any hname, h.expression hnumber (sound_plain rfl),
    forall_mem_map.mpr fun proc hproc => ?_⟩
  have hparts := hprocs proc hproc
  simp only [ProcDecl.lexemes, forall_mem_append, forall_mem_cons] at hparts
  obtain ⟨⟨⟨hproc, hid, -⟩, harg⟩, hres⟩ := hparts
  exact ⟨any hproc, h.expression hid (sound_plain rfl), TypeRef.sound_signature harg,
    TypeRef.sound_signature hres, hpath (hpath hprogram (any hname)) (any hproc)⟩

/-! ### Modules -/

theorem Inert.runs_programStrokes (hprocedure : ["Procedure"] ⊆ allowed) {decl : ProgramDecl}
    (hdecl : decl ∈ bundle.programs) : Runs allowed [] (programStrokes bundle decl) [] := by
  have hlexemes := h .program (.program decl) (mem_map_of_mem hdecl)
  simp only [Decl.lexemes, forall_mem_append, forall_mem_cons,
    forall_mem_flatMap] at hlexemes
  obtain ⟨⟨hname, hnumber, -⟩, hversions⟩ := hlexemes
  refine runs_checkedStrokes fun id hid => ?_
  rw [unsignedText_eq hid]
  refine .cons (runs_enter (sound_between (any hname) rfl)) <| .cons runs_superStrokes <|
    .cons (runs_line (sound_between (h.expression hnumber (sound_plain rfl)) rfl)) <|
    .cons (runs_flatMap fun version hversion => ?_) <| .cons runs_leave <|
    .cons runs_blank runs_nil
  exact runs_blank.append <| runs_checkedStrokes fun plan hplan =>
    runs_versionStrokes hprocedure
      (h.versionPlan (any hname) (hversions version hversion) hplan)

theorem Inert.runs_constStrokes : Runs allowed [] (constStrokes bundle) [] := by
  rw [constStrokes]
  split
  · exact runs_nil
  · refine runs_checkedStrokes fun texts htexts => ?_
    rw [eq_map_of_mapM constText_eq htexts, map_map]
    refine .cons (runs_enterPlain rfl) <| .cons (runs_onlyIf fun _ => runs_superStrokes) <|
      .cons (runs_lines fun decl hdecl => ?_) <| .cons runs_leave <| .cons runs_blank runs_nil
    obtain ⟨hname, hvalue⟩ := h.const hdecl
    exact sound_filled [some _, none, some _, none, some _] [_, _]
      ⟨hname.any, h.expression hvalue (sound_plain rfl)⟩ rfl

end Bundle

namespace Emit

variable {options : Options}

/-- Some type is declared. -/
def declaresTypes (bundle : Bundle) : Prop :=
  bundle.enums ≠ [] ∨ bundle.structs ≠ [] ∨ bundle.unions ≠ [] ∨ bundle.typedefs ≠ []

theorem wireItems_imported (h : declaresTypes bundle) :
    wireItems ⊆ imports options bundle := by
  rcases h with h | h | h | h <;> simp [imports, wireItems, h]

theorem formItems_imported (h : declaresTypes bundle) (hwanted : options.structural = true) :
    formItems ⊆ imports options bundle := by
  rcases h with h | h | h | h <;> simp [imports, formItems, h, hwanted]

theorem objectItems_imported (h : bundle.structs ≠ [] ∨ bundle.unions ≠ [])
    (hwanted : options.structural = true) : objectItems ⊆ imports options bundle := by
  rcases h with h | h <;> simp [imports, objectItems, h, hwanted]

theorem xdrError_imported (h : bundle.enums ≠ [] ∨ bundle.unions ≠ []) :
    ["XdrError"] ⊆ imports options bundle := by
  rcases h with h | h <;> simp [imports, h]

theorem procedure_imported (h : bundle.programs ≠ []) :
    ["Procedure"] ⊆ imports options bundle := by
  simp [imports, h]

/-- **The declarations of an emitted module** close the brackets that they
open, and use no items of the runtime but those that the module imports. -/
theorem runs_bodyStrokes (h : bundle.Inert) (options : Options) :
    Runs (imports options bundle) [] (bodyStrokes options bundle) [] := by
  have hgroup {α : Type} {items : List α} {strokes : α → List Stroke}
      (hitems : ∀ item ∈ items, Runs (imports options bundle) [] (strokes item) []) :
      Runs (imports options bundle) [] (items.map strokes).flatten [] := runs_flatMap hitems
  simp only [bodyStrokes, moduleParts, append_assoc, cons_append, nil_append,
    drop_succ_cons, drop_zero, flatten_cons, flatten_append]
  refine h.runs_constStrokes.append <| (hgroup fun decl hdecl => ?_).append <|
    (hgroup fun decl hdecl => ?_).append <| (hgroup fun decl hdecl => ?_).append <|
    (hgroup fun decl hdecl => ?_).append <| hgroup fun decl hdecl =>
      h.runs_programStrokes (procedure_imported (ne_nil_of_mem hdecl)) hdecl
  · have hsome := ne_nil_of_mem hdecl
    have htypes : declaresTypes bundle := .inl hsome
    exact runs_checkedStrokes fun plan hplan => runs_enumStrokes (h.enumPlan hdecl hplan)
      (xdrError_imported (.inl hsome)) (wireItems_imported htypes) (formItems_imported htypes)
  · have hsome := ne_nil_of_mem hdecl
    have htypes : declaresTypes bundle := .inr (.inl hsome)
    exact runs_checkedStrokes fun plan hplan => runs_structStrokes (h.structPlan hdecl hplan)
      (wireItems_imported htypes) (formItems_imported htypes)
        (objectItems_imported (.inl hsome))
  · have hsome := ne_nil_of_mem hdecl
    have htypes : declaresTypes bundle := .inr (.inr (.inl hsome))
    exact runs_checkedStrokes fun plan hplan => runs_unionStrokes (h.unionPlan hdecl hplan)
      (xdrError_imported (.inr hsome)) (wireItems_imported htypes) (formItems_imported htypes)
      (objectItems_imported (.inr hsome))
  · have htypes : declaresTypes bundle := .inr (.inr (.inr (ne_nil_of_mem hdecl)))
    exact runs_checkedStrokes fun plan hplan => runs_aliasStrokes (h.aliasPlan hdecl hplan)
      (wireItems_imported htypes) (formItems_imported htypes)

/-- Everything that is imported is an item of the runtime. -/
theorem mem_runtimeItems_of_imports {item} (h : item ∈ imports options bundle) :
    item ∈ runtimeItems := by
  obtain ⟨entry, hentry, rfl⟩ := mem_map.mp h
  have hentries := mem_of_mem_filter hentry
  simp only [mem_cons, not_mem_nil, or_false] at hentries
  rcases hentries with rfl | rfl | rfl | rfl | rfl | rfl | rfl | rfl | rfl <;>
    simp [runtimeItems]

theorem runs_importStrokes {items} (h : ∀ item ∈ items, Sound allowed item) :
    Runs allowed [] (importStrokes items) [] := by
  rcases items with _ | ⟨item, _ | ⟨next, others⟩⟩
  · exact runs_nil
  · exact .line (sound_between (h item mem_cons_self) rfl) runs_blank
  · exact .line (sound_between (sound_intercalate h) rfl) runs_blank

/-- **The lines of an emitted module** close the brackets that they open,
and use no items of the runtime but those that the module imports. -/
theorem runs_moduleStrokes (h : bundle.Inert) (options : Options) :
    Runs (imports options bundle) [] (moduleStrokes options bundle) [] := by
  have hhead : Runs (imports options bundle) [] (headStrokes options.inner) [] :=
    (runs_plain rfl).append <| Runs.append (runs_onlyIf fun _ => runs_line
      (sound_filled [some _, some _] [] trivial rfl)) runs_blank
  have himports : ∀ item ∈ imports options bundle, Sound (imports options bundle) item := by
    intro item hitem
    exact sound_word (word_of_mem_runtimeItems (mem_runtimeItems_of_imports hitem)).2 fun _ =>
      hitem
  exact hhead.append ((runs_importStrokes himports).append (runs_bodyStrokes h options))

end Emit
end Xdr
