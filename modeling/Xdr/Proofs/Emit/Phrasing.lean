import Xdr.Proofs.Emit.Nesting

/-!
# The texts of emitted code

Every text of an emitted module is a fixed one with names, numbers and
shorter such texts in its holes.  So a line leaves open only the brackets
that its fixed text opens, and the items of the runtime that it uses are
those that the kind of declaration needs.  The lines of a declaration
together close what they open.

## Main Statements

* `Emit.runs_enumStrokes`, `Emit.runs_structStrokes`,
  `Emit.runs_aliasStrokes`, `Emit.runs_unionStrokes`,
  `Emit.runs_versionStrokes` — the emitted forms of declarations
-/

namespace Xdr

open String

/-- The type that holds a field is sound, and so are the expressions that
move it. -/
structure Layout.Sound (allowed : List String) (layout : Layout) : Prop where
  host : Emit.Sound allowed layout.host
  pack : ∀ {access : Access}, Emit.Sound allowed access.target →
    Emit.Sound allowed (layout.pack access)
  unpack : Emit.Sound allowed layout.unpack

namespace Emit

open Stroke

variable {allowed : List String} {opened stack : List Bracket} {name : String}
  {structural : Bool}

/-! ### Texts with holes

Each of these says which brackets the text leaves open; where nothing else
is said, that is none. -/

/-- A template that uses no items of the runtime by itself. -/
theorem sound_filled (template : Template) (fillings : List String)
    (hfillings : fillings.Forall (Sound allowed)) (hcheck : template.check opened [] = true) :
    Leaves allowed opened (template.fill fillings) :=
  template.sound fillings (List.nil_subset _) hfillings hcheck

/-- A fixed text that uses no items of the runtime. -/
theorem sound_plain {chars : List Char}
    (hcheck : Template.check opened [] [some chars] = true) :
    Leaves allowed opened (ofList chars) :=
  sound_filled [some chars] [] trivial hcheck

theorem sound_empty : Sound allowed "" :=
  sound_plain rfl

/-- A text between two fixed ones. -/
theorem sound_between {front back : List Char} {text : String} (h : Sound allowed text)
    (hcheck : Template.check opened [] [some front, none, some back] = true) :
    Leaves allowed opened (ofList front ++ text ++ ofList back) :=
  sound_filled [some front, none, some back] [text] h hcheck

/-- A text before a fixed one. -/
theorem sound_before {back : List Char} {text : String} (h : Sound allowed text)
    (hcheck : Template.check opened [] [none, some back] = true) :
    Leaves allowed opened (text ++ ofList back) :=
  sound_filled [none, some back] [text] h hcheck

/-- Two texts among three fixed ones. -/
theorem sound_among {front middle back : List Char} {text other : String}
    (h : Sound allowed text) (hother : Sound allowed other)
    (hcheck : Template.check opened [] [some front, none, some middle, none,
      some back] = true) : Leaves allowed opened
      (ofList front ++ text ++ ofList middle ++ other ++ ofList back) :=
  sound_filled [some front, none, some middle, none,
    some back] [text, other] ⟨h, hother⟩ hcheck

theorem sound_quoted {text : String} (h : Sound allowed text) : Sound allowed (quoted text) :=
  sound_between h rfl

theorem sound_self {field : String} (h : Sound allowed field) :
    Sound allowed s!"self.{field}" :=
  sound_filled [some _, none] [field] h rfl

/-! ### Phrases -/

/-- The items of the wire form of a type. -/
def wireItems : List String :=
  ["Packer", "Unpacker", "Xdr"]

/-- The items of the structural form of a type. -/
def formItems : List String :=
  ["Structural", "Value"]

/-- The items that the structural form of a type with components uses in its
functions. -/
def objectItems : List String :=
  ["Map", "Value", "structural"]

/-- A line whose text has no holes. -/
theorem runs_plain {chars : List Char} (hcheck : Template.check [] [] [some chars] = true) :
    Runs allowed stack [.line (ofList chars)] stack :=
  runs_line (sound_plain hcheck)

/-- A block whose header has no holes. -/
theorem runs_enterPlain {chars : List Char}
    (hcheck : Template.check [.curly] [] [some chars, some [' ', '\x7b']] = true) :
    Runs allowed stack (enter (ofList chars)) (.curly :: stack) :=
  runs_enter (sound_filled [some chars, some [' ', '\x7b']] [] trivial hcheck)

section

variable (hwire : wireItems ⊆ allowed)
include hwire

theorem runs_enterWire (hname : Sound allowed name) :
    Runs allowed stack (enterWire name) (.curly :: stack) :=
  runs_enter (Template.sound [some _, none, some _] [name] hwire hname rfl)

theorem runs_enterPack : Runs allowed stack enterPack (.curly :: stack) :=
  runs_enter (Template.sound [some _, some _] [] hwire trivial rfl)

theorem runs_enterUnpack : Runs allowed stack enterUnpack (.curly :: stack) :=
  runs_enter (Template.sound [some _, some _] [] hwire trivial rfl)

end

section

variable (hforms : formItems ⊆ allowed)
include hforms

theorem runs_enterStructural (hname : Sound allowed name) :
    Runs allowed stack (enterStructural name) (.curly :: stack) :=
  runs_enter (Template.sound [some _, none, some _] [name] hforms hname rfl)

theorem runs_enterToStructural : Runs allowed stack enterToStructural (.curly :: stack) :=
  runs_enter (Template.sound [some _, some _] [] hforms trivial rfl)

theorem runs_enterFromStructural : Runs allowed stack enterFromStructural (.curly :: stack) :=
  runs_enter (Template.sound [some _, some _] [] hforms trivial rfl)

end

theorem runs_enterOk (hname : Sound allowed name) :
    Runs allowed stack (enter s!"Ok({name}") (.curly :: .round :: stack) :=
  runs_enterCall (sound_between hname rfl)

theorem sound_insertionText {value : String} (hname : Sound allowed name)
    (hvalue : Sound allowed value) : Sound allowed (insertionText name value) :=
  sound_among (sound_quoted hname) hvalue rfl

theorem sound_objectText (hobjects : objectItems ⊆ allowed) (hname : Sound allowed name) :
    Sound allowed (objectText name) :=
  Template.sound [some _, none, some _] [_] hobjects (sound_quoted hname) rfl

theorem runs_superStrokes : Runs allowed stack superStrokes stack :=
  .line (sound_plain rfl) runs_blank

/-- What holds of the strokes of every plan that a check yields holds of the
checked ones. -/
theorem runs_checkedStrokes {α : Type} {plan : Except EmitError α} {strokes : α → List Stroke}
    (h : ∀ value, plan = .ok value → Runs allowed stack (strokes value) stack) :
    Runs allowed stack (checkedStrokes plan strokes) stack := by
  cases plan with
  | ok value => exact h value rfl
  | error error => exact rfl

/-! ### Enumerations -/

/-- The names and numbers of an enumeration are sound. -/
structure EnumPlan.Sound (allowed : List String) (plan : EnumPlan) : Prop where
  name : Emit.Sound allowed plan.name
  members : ∀ member ∈ plan.members, Emit.Sound allowed member.1 ∧ Emit.Sound allowed member.2

section Enum

variable {plan : EnumPlan} (h : plan.Sound allowed)
include h

/-- The type that an enumeration becomes. -/
theorem runs_enumTypeStrokes : Runs allowed stack (enumTypeStrokes plan) stack := by
  refine .cons (.line (sound_plain rfl) (runs_plain rfl)) <|
    .cons (runs_enter (sound_between h.name rfl)) <| .cons ?_ <| .cons runs_leave <|
    .cons runs_blank runs_nil
  split
  · exact runs_nil
  · refine .line (sound_plain rfl) (runs_lines fun member hmember => ?_)
    exact sound_filled [none, some _, none, some _] [_, _] (h.members member hmember) rfl

theorem runs_enumImplStrokes : Runs allowed stack (enumImplStrokes plan) stack := by
  have hmembers :
    Leaves allowed [.square] s!"pub const MEMBERS: &'static [{plan.name}] = &[" :=
    sound_between h.name rfl
  have hfind : ∀ property, Sound allowed property → Sound allowed (findText property) :=
    fun property hproperty => sound_among hproperty hproperty rfl
  refine .cons (runs_enter (sound_between h.name rfl)) <|
    .cons (.opening hmembers rfl) <| .cons (runs_lines fun member hmember => ?_) <|
    .cons (runs_leaveWith rfl rfl) <| .cons runs_blank <|
    .cons (runs_enterPlain rfl) <| .cons (runs_plain rfl) <| .cons runs_leave <|
    .cons runs_blank <|
    .cons (runs_enterPlain rfl) <| .cons (runs_line (hfind _ (sound_plain rfl))) <|
    .cons runs_leave <| .cons runs_blank <|
    .cons (runs_enterPlain rfl) <| .cons (runs_enterPlain rfl) <|
    .cons (runs_lines fun member hmember => ?_) <| .cons runs_leave <| .cons runs_leave <|
    .cons runs_blank <|
    .cons (runs_enterPlain rfl) <| .cons (runs_line (hfind _ (sound_plain rfl))) <|
    .cons runs_leave <| .cons runs_leave <| .cons runs_blank runs_nil
  · exact sound_filled [none, some _, none, some _] [_, _]
      ⟨h.name, (h.members member hmember).1⟩ rfl
  · have hname := (h.members member hmember).1
    exact sound_filled [none, some _, none, some _, none, some _] [_, _, _]
      ⟨h.name, hname, sound_quoted hname⟩ rfl

theorem runs_enumNumberStrokes : Runs allowed stack (enumNumberStrokes plan) stack :=
  .cons (runs_enter (sound_filled [some _, none, some _, some _] [_] h.name rfl)) <|
    .cons (runs_enter (sound_filled [some _, none, some _, some _] [_] h.name rfl)) <|
    .cons (runs_plain rfl) <| .cons runs_leave <| .cons runs_leave <|
      .cons runs_blank runs_nil

variable (herror : ["XdrError"] ⊆ allowed)
include herror

theorem runs_fromValueStrokes : Runs allowed stack (fromValueStrokes plan.name) stack :=
  .cons (runs_enterCall (Template.sound [some _, some _] [] herror trivial rfl)) <|
    .cons (.line (sound_between (sound_quoted h.name) rfl) (runs_plain rfl)) <|
    .cons (runs_leaveWith rfl rfl) runs_nil

theorem runs_enumWireStrokes (hwire : wireItems ⊆ allowed) :
    Runs allowed stack (enumWireStrokes plan) stack :=
  .cons (runs_enterWire hwire h.name) <|
    .cons (runs_enterPack hwire) <| .cons (runs_plain rfl) <| .cons runs_leave <|
    .cons runs_blank <|
    .cons (runs_enterUnpack hwire) <| .cons (runs_plain rfl) <|
    .cons (runs_fromValueStrokes h herror) <| .cons runs_leave <|
    .cons runs_leave <| .cons runs_blank runs_nil

theorem runs_enumStructuralStrokes (hforms : formItems ⊆ allowed) :
    Runs allowed stack (enumStructuralStrokes plan) stack :=
  .cons (runs_enterStructural hforms h.name) <|
    .cons (runs_enterToStructural hforms) <|
    .cons (runs_line (Template.sound [some _] [] hforms trivial rfl)) <| .cons runs_leave <|
    .cons runs_blank <|
    .cons (runs_enterFromStructural hforms) <|
    .cons (runs_enterPlain rfl) <|
    .cons (runs_enterCall (Template.sound [some _, some _] [] herror trivial rfl)) <|
    .cons (.line (sound_between (sound_quoted h.name) rfl) (runs_plain rfl)) <|
    .cons (runs_leaveWith rfl rfl) <|
    .cons runs_leave <| .cons runs_blank <|
    .cons (runs_plain rfl) <| .cons (runs_fromValueStrokes h herror) <| .cons runs_leave <|
    .cons runs_leave <| .cons runs_blank runs_nil

/-- **The emitted form of an enumeration.** -/
theorem runs_enumStrokes (hwire : wireItems ⊆ allowed)
    (hforms : structural = true → formItems ⊆ allowed) :
    Runs allowed stack (enumStrokes structural plan) stack :=
  .cons (runs_enumTypeStrokes h) <| .cons (runs_enumImplStrokes h) <|
    .cons (runs_enumNumberStrokes h) <| .cons (runs_enumWireStrokes h herror hwire) <|
    .cons (runs_onlyIf fun hwanted => runs_enumStructuralStrokes h herror (hforms hwanted))
    runs_nil

end Enum

/-! ### Structures and type definitions -/

/-- The names and layouts of a structure are sound. -/
structure StructPlan.Sound (allowed : List String) (plan : StructPlan) : Prop where
  name : Emit.Sound allowed plan.name
  fields : ∀ field ∈ plan.fields, Emit.Sound allowed field.1 ∧ field.2.Sound allowed

section Struct

variable {plan : StructPlan} (h : plan.Sound allowed)
include h

/-- The type that a structure becomes. -/
theorem runs_structTypeStrokes : Runs allowed stack (structTypeStrokes plan) stack := by
  refine .cons (runs_plain rfl) <| .cons (runs_enter (sound_between h.name rfl)) <|
    .cons (runs_lines fun field hfield => ?_) <| .cons runs_leave <| .cons runs_blank runs_nil
  obtain ⟨hname, hlayout⟩ := h.fields field hfield
  exact sound_among hname hlayout.host rfl

theorem runs_structWireStrokes (hwire : wireItems ⊆ allowed) :
    Runs allowed stack (structWireStrokes plan) stack := by
  refine .cons (runs_enterWire hwire h.name) <|
    .cons (runs_enterPack hwire) <| .cons (runs_lines fun field hfield => ?_) <|
    .cons (runs_plain rfl) <| .cons runs_leave <| .cons runs_blank <|
    .cons (runs_enterUnpack hwire) <| .cons (runs_enterOk h.name) <|
    .cons (runs_lines fun field hfield => ?_) <| .cons (runs_leaveWith rfl rfl) <|
    .cons runs_leave <| .cons runs_leave <| .cons runs_blank runs_nil
  · obtain ⟨hname, hlayout⟩ := h.fields field hfield
    exact sound_before (hlayout.pack (sound_self hname)) rfl
  · obtain ⟨hname, hlayout⟩ := h.fields field hfield
    exact sound_filled [none, some _, none, some _] [_, _] ⟨hname, hlayout.unpack⟩ rfl

theorem runs_structStructuralStrokes (hforms : formItems ⊆ allowed)
    (hobjects : objectItems ⊆ allowed) :
    Runs allowed stack (structStructuralStrokes plan) stack := by
  refine .cons (runs_enterStructural hforms h.name) <|
    .cons (runs_enterToStructural hforms) <|
    .cons (runs_line (Template.sound [some _] [] hobjects trivial rfl)) <|
    .cons (runs_lines fun field hfield => ?_) <|
    .cons (runs_line (Template.sound [some _] [] hobjects trivial rfl)) <|
    .cons runs_leave <| .cons runs_blank <|
    .cons (runs_enterFromStructural hforms) <|
    .cons (runs_line (sound_objectText hobjects h.name)) <| .cons (runs_enterOk h.name) <|
    .cons (runs_lines fun field hfield => ?_) <| .cons (runs_leaveWith rfl rfl) <|
    .cons runs_leave <| .cons runs_leave <| .cons runs_blank runs_nil
  · have hname := (h.fields field hfield).1
    exact sound_insertionText hname (sound_self hname)
  · have hname := (h.fields field hfield).1
    exact Template.sound [none, some _, none, some _] [_, _] hobjects
      ⟨hname, sound_quoted hname⟩ rfl

/-- **The emitted form of a structure.** -/
theorem runs_structStrokes (hwire : wireItems ⊆ allowed)
    (hforms : structural = true → formItems ⊆ allowed)
    (hobjects : structural = true → objectItems ⊆ allowed) :
    Runs allowed stack (structStrokes structural plan) stack :=
  .cons (runs_structTypeStrokes h) <| .cons (runs_structWireStrokes h hwire) <|
    .cons (runs_onlyIf fun hwanted =>
      runs_structStructuralStrokes h (hforms hwanted) (hobjects hwanted)) runs_nil

end Struct

/-- The name and layout of a type definition are sound. -/
structure AliasPlan.Sound (allowed : List String) (plan : AliasPlan) : Prop where
  name : Emit.Sound allowed plan.name
  layout : plan.layout.Sound allowed

section Alias

variable {plan : AliasPlan} (h : plan.Sound allowed)
include h

/-- The type that a type definition becomes. -/
theorem runs_aliasTypeStrokes : Runs allowed stack (aliasTypeStrokes plan) stack := by
  have hhost := h.layout.host
  refine .cons (.line (sound_plain rfl) (.line (sound_among h.name hhost rfl) runs_blank)) <|
    .cons (runs_enter ?_) <|
    .cons (runs_enter (sound_filled [some _, none, some _, some _] [_] hhost rfl)) <|
    .cons (runs_line (sound_before h.name rfl)) <| .cons runs_leave <| .cons runs_leave <|
    .cons runs_blank runs_nil
  exact sound_among hhost h.name rfl

theorem runs_aliasWireStrokes (hwire : wireItems ⊆ allowed) :
    Runs allowed stack (aliasWireStrokes plan) stack :=
  .cons (runs_enterWire hwire h.name) <|
    .cons (runs_enterPack hwire) <|
    .cons (runs_line (h.layout.pack (sound_plain rfl))) <| .cons runs_leave <|
    .cons runs_blank <|
    .cons (runs_enterUnpack hwire) <|
    .cons (runs_line (sound_among h.name h.layout.unpack rfl)) <| .cons runs_leave <|
    .cons runs_leave <| .cons runs_blank runs_nil

theorem runs_aliasStructuralStrokes (hforms : formItems ⊆ allowed) :
    Runs allowed stack (aliasStructuralStrokes plan) stack := by
  refine .cons (runs_enterStructural hforms h.name) <|
    .cons (runs_enterToStructural hforms) <| .cons (runs_plain rfl) <| .cons runs_leave <|
    .cons runs_blank <|
    .cons (runs_enterFromStructural hforms) <| .cons (runs_line ?_) <| .cons runs_leave <|
    .cons runs_leave <| .cons runs_blank runs_nil
  exact Template.sound [some _, none, some _, none, some _] [_, _] hforms
    ⟨h.layout.host, h.name⟩ rfl

/-- **The emitted form of a type definition.** -/
theorem runs_aliasStrokes (hwire : wireItems ⊆ allowed)
    (hforms : structural = true → formItems ⊆ allowed) :
    Runs allowed stack (aliasStrokes structural plan) stack :=
  .cons (runs_aliasTypeStrokes h) <| .cons (runs_aliasWireStrokes h hwire) <|
    .cons (runs_onlyIf fun hwanted => runs_aliasStructuralStrokes h (hforms hwanted)) runs_nil

end Alias

/-! ### Unions -/

/-- The names, layouts, labels and discriminant of a union are sound. -/
structure UnionPlan.Sound (allowed : List String) (plan : UnionPlan) : Prop where
  name : Emit.Sound allowed plan.name
  tag : Emit.Sound allowed plan.tag
  layout : plan.layout.Sound allowed
  key : Emit.Sound allowed plan.key
  arms : ∀ arm ∈ plan.arms, Emit.Sound allowed arm.name ∧ arm.layout.Sound allowed
  branches : ∀ branch ∈ plan.branches,
    Emit.Sound allowed branch.1 ∧ ∀ arm ∈ branch.2, Emit.Sound allowed arm
  fallback : ∀ arm ∈ plan.fallback, Emit.Sound allowed arm

/-- A line that selects an arm, with the blanks in front of it. -/
theorem sound_selected {target : Option String} (h : ∀ arm ∈ target, Sound allowed arm) :
    Sound allowed (selected target) ∧ Sound allowed ("    " ++ selected target) := by
  have hselected : Sound allowed (selected target) := by
    cases target with
    | none => exact sound_plain rfl
    | some arm => exact sound_between (sound_quoted (h arm rfl)) rfl
  exact ⟨hselected, sound_filled [some _, none] [_] hselected rfl⟩

/-- Tests that go on after others find one brace open, and leave one open. -/
theorem runs_laterBranches {branches : List (String × Option String)}
    (h : ∀ branch ∈ branches, Sound allowed branch.1 ∧ ∀ arm ∈ branch.2, Sound allowed arm) :
    Runs allowed (.curly :: stack) (branchStrokes "\x7d else if" branches)
      (.curly :: stack) := by
  induction branches with
  | nil => exact runs_nil
  | cons branch branches ih =>
    obtain ⟨⟨hcondition, htarget⟩, hothers⟩ := List.forall_mem_cons.mp h
    have hline : Leaves allowed [.curly] (" else if" ++ " key == " ++ branch.1 ++ " \x7b") :=
      sound_filled [some _, some _, none, some _] [_] hcondition rfl
    have htext : "\x7d else if" ++ " key == " ++ branch.1 ++ " \x7b" =
        "\x7d" ++ (" else if" ++ " key == " ++ branch.1 ++ " \x7b") := by
      have hsplit : "\x7d else if" = "\x7d" ++ " else if" := by decide
      simp only [hsplit, append_assoc]
    have hnext := Runs.resuming hline (.line (sound_selected htarget).2 (ih hothers))
    rw [← htext] at hnext
    exact hnext

section Union

variable {plan : UnionPlan} (h : plan.Sound allowed)

/-- A choice is set off from its subject. -/
theorem runs_choiceStrokes {subject : String} (hsubject : Sound allowed subject)
    {branch : Arm → List Stroke}
    (hbranch : ∀ arm ∈ plan.arms, ∀ stack, Runs allowed stack (branch arm) stack) :
    Runs allowed stack (choiceStrokes plan subject branch) stack := by
  rw [choiceStrokes]
  split
  · exact runs_nil
  · exact .cons (runs_enter (sound_filled [some _, none, some _, some _] [_] hsubject rfl)) <|
      .cons (runs_flatMap fun arm harm => hbranch arm harm _) <| .cons (runs_plain rfl) <|
      .cons runs_leave runs_nil

include h

theorem runs_selectStrokes : Runs allowed stack (selectStrokes plan) stack := by
  have hbranches := h.branches
  have hfallback := sound_selected h.fallback
  rw [selectStrokes]
  generalize plan.branches = branches at hbranches ⊢
  cases branches with
  | nil => exact runs_line hfallback.1
  | cons branch branches =>
    obtain ⟨⟨hcondition, htarget⟩, hothers⟩ := List.forall_mem_cons.mp hbranches
    have hfirst : Leaves allowed [.curly] ("if" ++ " key == " ++ branch.1 ++ " \x7b") :=
      sound_filled [some _, some _, none, some _] [_] hcondition rfl
    exact .cons (runs_line (sound_between h.key rfl)) <|
      .cons
        (.opening hfirst (.line (sound_selected htarget).2 (runs_laterBranches hothers))) <|
      .cons (.fixed rfl rfl (.line hfallback.2 (.fixed rfl rfl runs_nil))) runs_nil

theorem runs_armStrokes : Runs allowed stack (armStrokes plan) stack :=
  .cons (runs_enter (sound_between h.name rfl)) <| .cons (runs_enterPlain rfl) <|
    .cons (runs_selectStrokes h) <| .cons runs_leave <| .cons runs_leave <|
    .cons runs_blank runs_nil

/-- The type that a union becomes. -/
theorem runs_unionTypeStrokes : Runs allowed stack (unionTypeStrokes plan) stack := by
  refine .cons (runs_plain rfl) <| .cons (runs_enter (sound_between h.name rfl)) <|
    .cons (runs_line (sound_among h.tag h.layout.host rfl)) <|
    .cons (runs_lines fun arm harm => ?_) <| .cons runs_leave <| .cons runs_blank runs_nil
  obtain ⟨hname, hlayout⟩ := h.arms arm harm
  have hhost : Sound allowed arm.host := by
    rw [Arm.host]
    split
    · exact sound_between hlayout.host rfl
    · exact hlayout.host
  exact sound_among hname hhost rfl

section Arm

variable {arm : Arm} (harm : arm ∈ plan.arms)
include harm

theorem runs_packStrokes (herror : ["XdrError"] ⊆ allowed) (stack : List Bracket) :
    Runs allowed stack (packStrokes plan arm) stack := by
  obtain ⟨hname, hlayout⟩ := h.arms arm harm
  have harms : Sound allowed s!"arm: {quoted arm.name}," :=
    sound_between (sound_quoted hname) rfl
  refine .cons (runs_enter ?_) <|
    .cons (runs_line (sound_between (hlayout.pack (sound_plain rfl)) rfl)) <|
    .cons (runs_enterCall (Template.sound [some _, some _] [] herror trivial rfl)) <|
    .cons (.line (sound_between (sound_quoted h.name) rfl) (runs_line harms)) <|
    .cons (runs_leaveWith rfl rfl) <| .cons (runs_leaveWith rfl rfl) runs_nil
  exact sound_filled [some _, none, some _, none,
    some _] [_, _] ⟨sound_quoted hname, hname⟩ rfl

theorem sound_unpackText : Sound allowed (unpackText arm) := by
  obtain ⟨hname, hlayout⟩ := h.arms arm harm
  have hunpack : Sound allowed arm.unpack := by
    rw [Arm.unpack]
    split
    · exact sound_between hlayout.unpack rfl
    · exact sound_before hlayout.unpack rfl
  exact sound_filled [some _, none, some _, none, some _, none, some _] [_, _, _]
    ⟨sound_quoted hname, hname, hunpack⟩ rfl

theorem runs_insertStrokes (stack : List Bracket) :
    Runs allowed stack (insertStrokes arm) stack := by
  have hname := (h.arms arm harm).1
  refine .cons (runs_enter ?_) <| .cons (runs_enter (sound_between hname rfl)) <|
    .cons (runs_line (sound_insertionText hname (sound_plain rfl))) <| .cons runs_leave <|
    .cons runs_leave runs_nil
  exact sound_filled [some _, none, some _, some _] [_] (sound_quoted hname) rfl

theorem sound_readText (hobjects : objectItems ⊆ allowed) : Sound allowed (readText arm) := by
  have hname := (h.arms arm harm).1
  exact Template.sound [some _, none, some _, none, some _, none, some _] [_, _, _] hobjects
    ⟨sound_quoted hname, hname, sound_quoted hname⟩ rfl

end Arm

/-- Packing and unpacking a union. -/
theorem runs_unionWireStrokes (herror : ["XdrError"] ⊆ allowed)
    (hwire : wireItems ⊆ allowed) : Runs allowed stack (unionWireStrokes plan) stack := by
  have hunpack : Sound allowed s!"result.{plan.tag} = {plan.layout.unpack}?;" :=
    sound_among h.tag h.layout.unpack rfl
  exact .cons (runs_enterWire hwire h.name) <|
    .cons (runs_enterPack hwire) <|
    .cons (runs_line (sound_before (h.layout.pack (sound_self h.tag)) rfl)) <|
    .cons (runs_choiceStrokes (sound_plain rfl) fun arm harm =>
      runs_packStrokes h harm herror) <|
    .cons (runs_plain rfl) <| .cons runs_leave <| .cons runs_blank <|
    .cons (runs_enterUnpack hwire) <|
    .cons (.line (sound_between h.name rfl) (.line hunpack runs_blank)) <|
    .cons (runs_choiceStrokes (sound_plain rfl) fun arm harm stack =>
      runs_line (sound_unpackText h harm)) <|
    .cons (runs_plain rfl) <| .cons runs_leave <| .cons runs_leave <|
    .cons runs_blank runs_nil

/-- The structural form of a union. -/
theorem runs_unionStructuralStrokes (hforms : formItems ⊆ allowed)
    (hobjects : objectItems ⊆ allowed) :
    Runs allowed stack (unionStructuralStrokes plan) stack := by
  have hfield : Sound allowed
      s!"result.{plan.tag} = structural::field(map, {quoted plan.tag})?;" :=
    Template.sound [some _, none, some _, none, some _] [_, _] hobjects
      ⟨h.tag, sound_quoted h.tag⟩ rfl
  refine .cons (runs_enterStructural hforms h.name) <|
    .cons (runs_enterToStructural hforms) <|
    .cons (.line (Template.sound [some _] [] hobjects trivial rfl)
      (runs_line (sound_insertionText h.tag (sound_self h.tag)))) <|
    .cons ?_ <|
    .cons (runs_choiceStrokes (sound_plain rfl) fun arm harm => runs_insertStrokes h harm) <|
    .cons (runs_line (Template.sound [some _] [] hobjects trivial rfl)) <|
    .cons runs_leave <| .cons runs_blank <|
    .cons (runs_enterFromStructural hforms) <|
    .cons (.line (sound_objectText hobjects h.name)
      (.line (sound_between h.name rfl) (.line hfield runs_blank))) <|
    .cons (runs_choiceStrokes (sound_plain rfl) fun arm harm stack =>
      runs_line (sound_readText h harm hobjects)) <|
    .cons (runs_plain rfl) <| .cons runs_leave <| .cons runs_leave <|
    .cons runs_blank runs_nil
  split
  · exact runs_nil
  · exact runs_blank

/-- **The emitted form of a union.** -/
theorem runs_unionStrokes (herror : ["XdrError"] ⊆ allowed) (hwire : wireItems ⊆ allowed)
    (hforms : structural = true → formItems ⊆ allowed)
    (hobjects : structural = true → objectItems ⊆ allowed) :
    Runs allowed stack (unionStrokes structural plan) stack :=
  .cons (runs_unionTypeStrokes h) <| .cons (runs_armStrokes h) <|
    .cons (runs_unionWireStrokes h herror hwire) <|
    .cons (runs_onlyIf fun hwanted =>
      runs_unionStructuralStrokes h (hforms hwanted) (hobjects hwanted)) runs_nil

end Union

/-! ### Programs -/

/-- The names, numbers and types of a procedure are sound. -/
structure ProcPlan.Sound (allowed : List String) (plan : ProcPlan) : Prop where
  name : Emit.Sound allowed plan.decl.name
  id : Emit.Sound allowed plan.id
  arg : Emit.Sound allowed plan.arg
  res : Emit.Sound allowed plan.res
  path : Emit.Sound allowed plan.path

/-- The name, number and procedures of a version are sound. -/
structure VersionPlan.Sound (allowed : List String) (plan : VersionPlan) : Prop where
  name : Emit.Sound allowed plan.name
  id : Emit.Sound allowed plan.id
  procs : ∀ proc ∈ plan.procs, proc.Sound allowed

theorem sound_procEntry (hprocedure : ["Procedure"] ⊆ allowed) {proc : ProcPlan}
    (h : proc.Sound allowed) : Sound allowed (procEntry proc) := by
  -- The brackets of this line are closed in its second half only.
  delta procEntry
  rw [← append_assoc, ← append_assoc]
  exact Template.sound [some _, none, some _, some _, none, some _] [_, _] hprocedure
    ⟨h.name, h.name⟩ rfl

/-- The table of the procedures of a version. -/
theorem runs_tableStrokes (hprocedure : ["Procedure"] ⊆ allowed) {procs : List ProcPlan}
    (h : ∀ proc ∈ procs, proc.Sound allowed) :
    Runs allowed stack (tableStrokes procs) stack := by
  have hopening : Leaves allowed [.square] "pub const PROCEDURES: &[Procedure] = &[" :=
    Template.sound [some _] [] hprocedure trivial rfl
  rw [tableStrokes]
  split
  · exact runs_line (Template.sound [some _] [] hprocedure trivial rfl)
  · exact .cons (.opening hopening rfl) <|
      .cons (runs_lines fun proc hproc => sound_procEntry hprocedure (h proc hproc)) <|
      .cons (runs_leaveWith rfl rfl) runs_nil

/-- What follows the word `self` is set off from it, if there is anything. -/
theorem sound_methodText {proc : ProcPlan} (h : proc.Sound allowed) :
    Sound allowed (methodText proc) := by
  have hself : Sound allowed
      ("self" ++ if proc.decl.arg = .void then "" else s!", arg: {proc.decl.name}::Arg") := by
    split
    · rw [append_empty]
      exact sound_plain rfl
    · rw [← append_assoc, ← append_assoc]
      exact sound_filled [some _, some _, none, some _] [_] h.name rfl
  have hres : Sound allowed
      (if proc.decl.res = .void then "" else s!" -> {proc.decl.name}::Res") := by
    split
    · exact sound_empty
    · exact sound_between h.name rfl
  have htext : ∀ arg res : String,
      "fn " ++ proc.decl.name ++ "(&mut self" ++ arg ++ ")" ++ res ++ ";" =
        "fn " ++ proc.decl.name ++ "(&mut " ++ ("self" ++ arg) ++ ")" ++ res ++ ";" := by
    intro arg res
    have hsplit : "(&mut self" = "(&mut " ++ "self" := by decide
    simp only [hsplit, append_assoc]
  refine (congrArg (Sound allowed) (htext _ _)).mpr ?_
  exact sound_filled [some _, none, some _, none, some _, none, some _] [_, _, _]
    ⟨h.name, hself, hres⟩ rfl

/-- The module of a procedure. -/
theorem runs_procStrokes {proc : ProcPlan} (h : proc.Sound allowed) :
    Runs allowed stack (procStrokes proc) stack := by
  have hpath : Sound allowed s!"pub const NAME: &str = {quoted proc.path};" :=
    sound_between (sound_quoted h.path) rfl
  exact .cons (runs_enter (sound_between h.name rfl)) <|
    .cons (runs_onlyIf fun _ => runs_superStrokes) <|
    .cons (.line (sound_between h.id rfl) (.line hpath
      (.line (sound_between h.arg rfl) (runs_line (sound_between h.res rfl))))) <|
    .cons runs_leave runs_nil

/-- **The emitted form of a version.** -/
theorem runs_versionStrokes (hprocedure : ["Procedure"] ⊆ allowed) {plan : VersionPlan}
    (h : plan.Sound allowed) : Runs allowed stack (versionStrokes plan) stack := by
  refine .cons (runs_enter (sound_between h.name rfl)) <| .cons runs_superStrokes <|
    .cons (.line (sound_between h.id rfl) runs_blank) <|
    .cons (runs_tableStrokes hprocedure h.procs) <| .cons runs_blank <|
    .cons (runs_enterPlain rfl) <|
    .cons (runs_lines fun proc hproc => sound_methodText (h.procs proc hproc)) <|
    .cons runs_leave <| .cons (runs_flatMap fun proc hproc => ?_) <| .cons runs_leave runs_nil
  exact runs_procStrokes (h.procs proc hproc)

end Emit
end Xdr
