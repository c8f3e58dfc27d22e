import Xdr.Proofs.Emit.Programs

/-!
# The lines of unions

Everything that is emitted for a union, line by line: the structure that
holds it, the function that selects an arm, and the functions that move the
selected arm over the wire and through the structural form.

## Main Statements

* `Bundle.host_of_layout` — a layout that is found holds a field by the type
  that its declaration asks for
* `Emit.prints_selectStrokes` — `arm()` is printed test by test
* `Emit.prints_unionStrokes` — what is emitted for a plan of a union
-/

namespace Xdr

/-! ### Types -/

/-- The type of emitted code that holds a field. -/
def TypeRef.held (type : TypeRef) : Form → String
  | .plain => type.signature
  | .array _ _ =>
    if type.blobRoutine?.isSome then type.signature else "Vec<" ++ type.signature ++ ">"
  | .pointer =>
    if type.declared?.isSome then "Option<Box<" ++ type.signature ++ ">>"
      else "Option<" ++ type.signature ++ ">"

/-- The type of emitted code that holds an arm that is present: one of a
declared type is boxed. -/
def Field.heldArm (field : Field) : String :=
  if field.form = .plain ∧ field.type.declared?.isSome then
    "Box<" ++ field.type.held field.form ++ ">"
  else field.type.held field.form

namespace Bundle

variable {bundle : Bundle} {type : TypeRef} {form : Form} {context : String} {layout : Layout}

/-- A layout that is found holds a field by the type that its declaration
asks for. -/
theorem host_of_layout (h : bundle.layout type form context = .ok layout) :
    layout.host = type.held form := by
  obtain ⟨found, hshape, h⟩ := bind_eq_ok.mp h
  cases type with
  | void => cases hshape
  | named name =>
    rw [shape] at hshape
    dsimp only [TypeRef.primitive?] at hshape
    split at hshape
    · cases hshape
      cases form with
      | plain | pointer =>
        cases h
        rfl
      | array length fixed =>
        obtain ⟨_, -, h⟩ := bind_eq_ok.mp h
        cases h
        rfl
    · cases hshape
  | int | uint | hyper | uhyper | float | double | bool | string | opaqueData | netobj =>
    cases hshape
    cases form with
    | plain | pointer =>
      cases h
      rfl
    | array length fixed =>
      obtain ⟨_, -, h⟩ := bind_eq_ok.mp h
      cases h
      rfl

/-- An arm is moved by its own type if and only if it is a single value of a
declared type. -/
theorem Prescribes.isOwn_eq {transfer} (h : bundle.Prescribes type form transfer) :
    transfer.isOwn = decide (form = .plain ∧ type.declared?.isSome) := by
  cases h with
  | scalar htype => cases type <;> first | rfl | cases htype
  | blob htype => cases type <;> first | rfl | cases htype
  | own _ => rfl
  | limitedBlob _ _ | array _ _ _ | optional _ => exact (decide_eq_false (by simp)).symm

end Bundle

namespace Emit

open Doc Stroke

/-! ### Lines -/

/-- A test of `arm()`: the expression that the discriminant is compared
with, and the arm that is then selected. -/
structure Branch where
  condition : String
  target : Option String
  deriving DecidableEq, Repr

/-- The structure that holds a union: its discriminant, and an optional
field for each arm. -/
def holderLines (decl : UnionDecl) (arms : List Field) : List String :=
  ["#[derive(Debug, Clone, PartialEq, Default)]", "pub struct " ++ decl.name ++ " \x7b",
      indented 1 ("pub " ++ decl.discriminant.name ++ ": " ++
        decl.discriminant.type.held .plain ++ ",")] ++
    arms.map (fun arm =>
      indented 1 ("pub " ++ arm.name ++ ": Option<" ++ arm.heldArm ++ ">,")) ++ ["\x7d"]

/-- The tests of `arm()` one after the other, and the arm that is selected
if all of them fail.  Without a test there is no discriminant to look at. -/
def selectionLines (key : String) (fallback : Option String) : List Branch → List String
  | [] => [indented 2 (selected fallback)]
  | first :: later =>
    [indented 2 ("let key = " ++ key ++ ";"),
      indented 2 ("if key == " ++ first.condition ++ " \x7b"),
        indented 3 (selected first.target)] ++
      later.flatMap (fun branch =>
        [indented 2 ("\x7d else if key == " ++ branch.condition ++ " \x7b"),
          indented 3 (selected branch.target)]) ++
      [indented 2 "\x7d else \x7b", indented 3 (selected fallback), indented 2 "\x7d"]

/-- The function that selects an arm. -/
def armLines (name key : String) (fallback : Option String) (branches : List Branch) :
    List String :=
  ["impl " ++ name ++ " \x7b", indented 1 "pub fn arm(&self) -> Option<&'static str> \x7b"] ++
    selectionLines key fallback branches ++ [indented 1 "\x7d", "\x7d"]

/-- Entering a component in the map of a structural form. -/
def insertText (name value : String) : String :=
  "map.insert(" ++ quoted name ++ ".to_owned(), " ++ value ++ ".to_structural());"

/-- Entering the arm that is selected, if it is present. -/
def insertArmLines (move : Move) : List String :=
  [indented 3 ("Some(" ++ quoted move.field.name ++ ") => \x7b"),
    indented 4 ("if let Some(arm) = &self." ++ move.field.name ++ " \x7b"),
    indented 5 (insertText move.field.name "arm"), indented 4 "\x7d", indented 3 "\x7d"]

/-- Reading the arm that is selected. -/
def readArmLines (move : Move) : List String :=
  [indented 3 ("Some(" ++ quoted move.field.name ++ ") => result." ++ move.field.name ++
    " = structural::arm(map, " ++ quoted move.field.name ++ ")?,")]

/-- The two functions of the structural form. -/
def structuralLines (name tag : String) (arms : List Move) : List String :=
  ["impl Structural for " ++ name ++ " \x7b",
    indented 1 "fn to_structural(&self) -> Value \x7b",
      indented 2 "let mut map = Map::new();", indented 2 (insertText tag ("self." ++ tag))] ++
    (if arms.isEmpty then [] else [""]) ++ choiceLines "self" arms insertArmLines ++
    ["", indented 2 "Value::Object(map)", indented 1 "\x7d", "",
      indented 1 "fn from_structural(value: &Value) -> ::xdr_runtime::Result<Self> \x7b",
      indented 2 ("let map = structural::object(value, " ++ quoted name ++ ")?;"),
      indented 2 ("let mut result = " ++ name ++ "::default();"),
      indented 2 ("result." ++ tag ++ " = structural::field(map, " ++ quoted tag ++ ")?;"),
      ""] ++
    choiceLines "result" arms readArmLines ++ ["", indented 2 "Ok(result)",
      indented 1 "\x7d", "\x7d"]

/-- All that is emitted for a union, given what moves its discriminant and
its arms and what `arm()` tests. -/
def unionBlock (structural : Bool) (decl : UnionDecl) (tag : Transfer) (arms : List Move)
    (key : String) (fallback : Option String) (branches : List Branch) : List String :=
  holderLines decl (arms.map Move.field) ++ [""] ++
    armLines decl.name key fallback branches ++ [""] ++
    unionLines decl.name decl.discriminant.name tag arms ++ [""] ++
    (if structural then structuralLines decl.name decl.discriminant.name arms ++ [""] else [])

/-- The structure and `arm()` come first. -/
theorem holder_within (structural : Bool) (decl : UnionDecl) (tag : Transfer)
    (arms : List Move) (key : String) (fallback : Option String) (branches : List Branch) :
    holderLines decl (arms.map Move.field) ++ [""] ++
    armLines decl.name key fallback branches <:+:
      unionBlock structural decl tag arms key fallback branches := by
  refine ⟨[], [""] ++ unionLines decl.name decl.discriminant.name tag arms ++ [""] ++
    (if structural then structuralLines decl.name decl.discriminant.name arms ++ [""]
      else []), ?_⟩
  simp only [unionBlock, List.nil_append, List.append_assoc]

/-! ### Printing -/

section

attribute [local simp] Stroke.print print_enter print_leaveWith print_lines leave
  enterStructural
  enterToStructural enterFromStructural Output.wrote_andThen_andThen indented_zero
  String.append_assoc

/-- A level more is four blanks more. -/
theorem indented_succ (level : Nat) (text : String) :
    indented (level + 1) text = indented level ("    " ++ text) := by
  have hblanks : indentation (level + 1) = indentation level ++ "    " := by
    rw [indentation, Nat.mul_succ, ← List.replicate_append_replicate, String.ofList_append]
    rfl
  rw [indented, indented, hblanks, String.append_assoc]

/-- Tests are printed one after the other, with what they select one level
deeper. -/
theorem prints_branchStrokes (branches : List Branch) :
    Prints 2 (branchStrokes "\x7d else if" (branches.map fun branch =>
      (branch.condition, branch.target))) (branches.flatMap fun branch =>
        [indented 2 ("\x7d else if key == " ++ branch.condition ++ " \x7b"),
          indented 3 (selected branch.target)]) := by
  intro rest
  induction branches with
  | nil => rfl
  | cons branch branches ih => simp [branchStrokes, indented_succ 2, ih]

/-- `arm()` is printed test by test. -/
theorem prints_selectStrokes {plan : UnionPlan} {branches : List Branch}
    (h : plan.branches = branches.map fun branch => (branch.condition, branch.target)) :
    Prints 2 (selectStrokes plan) (selectionLines plan.key plan.fallback branches) := by
  intro rest
  cases branches with
  | nil => simp [selectStrokes, selectionLines, h]
  | cons first later =>
    have hlater := prints_branchStrokes later
    simp [selectStrokes, selectionLines, h, branchStrokes, indented_succ 2, hlater _]

theorem prints_armStrokes {plan : UnionPlan} {branches : List Branch}
    (h : plan.branches = branches.map fun branch => (branch.condition, branch.target)) :
    Prints 0 (armStrokes plan)
      (armLines plan.name plan.key plan.fallback branches ++ [""]) := by
  intro rest
  simp [armStrokes, armLines, prints_selectStrokes h _]

section Plans

variable {decl : UnionDecl} {plan : UnionPlan} {transfer : Arm → Transfer}

/-- The structure that holds a union is printed field by field. -/
theorem prints_unionTypeStrokes (hname : plan.name = decl.name)
    (htag : plan.tag = decl.discriminant.name)
    (hhost : plan.layout.host = decl.discriminant.type.held .plain)
    (harms : ∀ arm ∈ plan.arms, arm.host = arm.field.heldArm) :
    Prints 0 (unionTypeStrokes plan)
      (holderLines decl (plan.arms.map Arm.field) ++ [""]) := by
  have hfields : plan.arms.map (fun arm =>
        indented 1 ("pub " ++ (arm.field.name ++ (": Option<" ++ (arm.host ++ ">,"))))) =
      plan.arms.map fun arm =>
        indented 1
          ("pub " ++ (arm.field.name ++ (": Option<" ++ (arm.field.heldArm ++ ">,")))) :=
    List.map_congr_left fun arm harm => by rw [harms arm harm]
  intro rest
  simp [unionTypeStrokes, holderLines, deriveText, hname, htag, hhost, Arm.name, hfields,
    Function.comp_def]

theorem prints_insertStrokes (arm : Arm) (transfer : Transfer) :
    Prints 3 (insertStrokes arm) (insertArmLines ⟨arm.field, transfer⟩) := by
  intro rest
  simp [insertStrokes, insertArmLines, insertionText, insertText, Arm.name]

theorem prints_readText (arm : Arm) (transfer : Transfer) :
    Prints 3 [.line (readText arm)] (readArmLines ⟨arm.field, transfer⟩) :=
  fun _ => rfl

/-- The structural form of a union is printed arm by arm. -/
theorem prints_unionStructuralStrokes (plan : UnionPlan) (transfer : Arm → Transfer) :
    Prints 0 (unionStructuralStrokes plan)
      (structuralLines plan.name plan.tag
        (plan.arms.map fun arm => ⟨arm.field, transfer arm⟩) ++ [""]) := by
  have hinsert := prints_choiceStrokes "self" fun arm (_ : arm ∈ plan.arms) =>
    prints_insertStrokes arm (transfer arm)
  have hread := prints_choiceStrokes "result" fun arm (_ : arm ∈ plan.arms) =>
    prints_readText arm (transfer arm)
  have hobject : objectText plan.name =
      "let map = structural::object(value, " ++ quoted plan.name ++ ")?;" := rfl
  intro rest
  by_cases h : plan.arms = [] <;>
    simp [unionStructuralStrokes, structuralLines, insertionText, insertText, hobject, h,
      hinsert _, hread _]

/-- All that is emitted for the plan of a union. -/
theorem prints_unionStrokes (structural : Bool) (hname : plan.name = decl.name)
    (htag : plan.tag = decl.discriminant.name)
    (hhost : plan.layout.host = decl.discriminant.type.held .plain)
    (hhosts : ∀ arm ∈ plan.arms, arm.host = arm.field.heldArm) {tag}
    (hmoved : plan.layout.Realizes tag)
    (hmoves : ∀ arm ∈ plan.arms, arm.layout.Realizes (transfer arm)) {branches : List Branch}
    (hbranches : plan.branches = branches.map fun branch =>
      (branch.condition, branch.target)) : Prints 0 (unionStrokes structural plan)
      (unionBlock structural decl tag (plan.arms.map fun arm =>
        ⟨arm.field, transfer arm⟩) plan.key plan.fallback branches) := by
  have hholder := prints_unionTypeStrokes hname htag hhost hhosts
  have hselects := prints_armStrokes hbranches
  have hwire := prints_unionWireStrokes hmoved hmoves
  have hform := prints_unionStructuralStrokes plan transfer
  intro rest
  cases structural <;>
    simp [unionStrokes, unionBlock, hholder _, hselects _, hwire _, hform _, ← hname, ← htag,
      Function.comp_def]

end Plans

end

end Emit
end Xdr
