import Xdr.Emit.Phrase
import Xdr.Emit.Resolve

/-!
# Emitted unions

## Design Notes

A union is emitted as a structure with its discriminant and one optional
field for each distinct arm. Which arm belongs to a discriminant is decided
by `arm()`, which tests the labels in the order of the cases and falls back
to the default case wherever that stands. All other functions ask `arm()`.

An arm of a declared type is boxed, since a union may contain itself through
its arms.
-/

namespace Xdr.Emit

/-- An arm with a field. -/
structure Arm where
  field : Field
  layout : Layout
  deriving DecidableEq, Repr

namespace Arm

/-- The name of an arm. -/
def name (arm : Arm) : String :=
  arm.field.name

/-- An arm of a declared type gets its own place in memory. -/
def isBoxed (arm : Arm) : Bool :=
  match arm.layout with
  | .raw (.composite _) => true
  | _ => false

/-- The type of emitted code that holds an arm that is present. -/
def host (arm : Arm) : String :=
  if arm.isBoxed then s!"Box<{arm.layout.host}>" else arm.layout.host

/-- The expression that unpacks an arm. -/
def unpack (arm : Arm) : String :=
  if arm.isBoxed then s!"Box::new({arm.layout.unpack}?)" else s!"{arm.layout.unpack}?"

end Arm

/-- A union with its distinct arms, and the arm that each label and the
default case select. -/
structure UnionPlan where
  name : String
  tag : String
  layout : Layout
  key : String
  arms : List Arm
  branches : List (String × Option String)
  fallback : Option String
  deriving DecidableEq, Repr

/-- What was found in the cases so far. -/
structure CaseState where
  arms : List Arm
  branches : List (String × Option String)
  /-- The default case's arm, once there was one. -/
  fallback : Option (Option String)
  seen : List Int
  deriving DecidableEq, Repr

/-- Adds an arm to those found so far. An arm may be given again, but only
with the same type. -/
def addArm (bundle : Bundle) (decl : UnionDecl) (arms : List Arm) (field : Field) :
    Except EmitError (List Arm) :=
  if field.name = decl.discriminant.name then .error (.conflictingArm decl.name field.name)
  else
    match arms.find? fun arm => arm.name == field.name with
    | some arm =>
      if arm.field = field then .ok arms else .error (.conflictingArm decl.name field.name)
    | none =>
      (bundle.layout field.type field.form s!"{decl.name}.{field.name}").map fun layout =>
        arms ++ [⟨field, layout⟩]

/-- Adds a label to those found so far. -/
def addLabel (bundle : Bundle) (decl : UnionDecl) (state : CaseState) (label : Label)
    (target : Option String) : Except EmitError CaseState :=
  match label with
  | .otherwise =>
    match state.fallback with
    | some _ => .error (.duplicateLabel decl.name label.text)
    | none => .ok { state with fallback := some target }
  | .value value => do
    let condition ← bundle.valueText value "i64" decl.name
    let seen ← match bundle.evaluate value with
      | some number =>
        if state.seen.contains number then .error (.duplicateLabel decl.name value.text)
        else .ok (number :: state.seen)
      | none => .ok state.seen
    return { state with branches := state.branches ++ [(condition, target)], seen := seen }

/-- Adds a case to those found so far. -/
def addCase (bundle : Bundle) (decl : UnionDecl) (state : CaseState) (case : Case) :
    Except EmitError CaseState :=
  match case.field? with
  | some field => do
    let arms ← addArm bundle decl state.arms field
    addLabel bundle decl { state with arms := arms } case.label (some field.name)
  | none => addLabel bundle decl state case.label none

/-- Checks a union. -/
def unionPlan (bundle : Bundle) (decl : UnionDecl) : Except EmitError UnionPlan := do
  let tag := decl.discriminant
  let layout ← bundle.layout tag.type .plain s!"{decl.name}.{tag.name}"
  let key ← bundle.keyText tag.type s!"self.{tag.name}" decl.name
  let state ← decl.cases.foldlM (addCase bundle decl) ⟨[], [], none, []⟩
  return ⟨decl.name, tag.name, layout, key, state.arms, state.branches, state.fallback.join⟩

/-- The arm that a case selects, as an expression. -/
def selected (target : Option String) : String :=
  match target with
  | some arm => s!"Some({quoted arm})"
  | none => "None"

open Stroke

/-- The type itself. -/
def unionTypeStrokes (plan : UnionPlan) : List Stroke :=
  List.flatten [
    [.line deriveText],
    enter s!"pub struct {plan.name}",
    [.line s!"pub {plan.tag}: {plan.layout.host},"],
    plan.arms.map fun arm => .line s!"pub {arm.name}: Option<{arm.host}>,",
    leave, [.blank]]

/-- The tests of labels, the first of which begins with the given keyword.
They are all written at one depth, with the blanks before what they select
as a part of the line. -/
def branchStrokes (keyword : String) : List (String × Option String) → List Stroke
  | [] => []
  | (condition, target) :: branches =>
    .line (s!"{keyword} key == {condition}" ++ " \x7b") ::
      .line ("    " ++ selected target) :: branchStrokes "\x7d else if" branches

/-- The selection of an arm. -/
def selectStrokes (plan : UnionPlan) : List Stroke :=
  if plan.branches.isEmpty then [.line (selected plan.fallback)]
  else
    List.flatten [
      [.line s!"let key = {plan.key};"],
      branchStrokes "if" plan.branches,
      [.line "\x7d else \x7b", .line ("    " ++ selected plan.fallback), .line "\x7d"]]

/-- The function that selects an arm. -/
def armStrokes (plan : UnionPlan) : List Stroke :=
  List.flatten [
    enter s!"impl {plan.name}",
    enter "pub fn arm(&self) -> Option<&'static str>", selectStrokes plan, leave,
    leave, [.blank]]

/-- A choice by the arm that `subject` selects, unless there is no arm. -/
def choiceStrokes (plan : UnionPlan) (subject : String) (branch : Arm → List Stroke) :
    List Stroke :=
  if plan.arms.isEmpty then []
  else
    List.flatten [
      enter s!"match {subject}.arm()",
      plan.arms.flatMap branch,
      [.line "_ => (),"],
      leave]

/-- Packing the arm that is selected, which has to be present. -/
def packStrokes (plan : UnionPlan) (arm : Arm) : List Stroke :=
  List.flatten [
    enter s!"Some({quoted arm.name}) => match &self.{arm.name}",
    [.line ("Some(arm) => " ++ arm.layout.pack (.reference "arm") ++ "?,")],
    enter "None => return Err(XdrError::MissingArm",
    [.line s!"union: {quoted plan.name},", .line s!"arm: {quoted arm.name},"],
    leaveWith "\x7d),",
    leaveWith "\x7d,"]

/-- Unpacking the arm that is selected. -/
def unpackText (arm : Arm) : String :=
  s!"Some({quoted arm.name}) => result.{arm.name} = Some({arm.unpack}),"

/-- Moving a union over the wire. -/
def unionWireStrokes (plan : UnionPlan) : List Stroke :=
  List.flatten [
    enterWire plan.name,
    enterPack,
    [.line (plan.layout.pack (.place s!"self.{plan.tag}") ++ "?;")],
    choiceStrokes plan "self" (packStrokes plan),
    [.blank, .line "Ok(())"],
    leave, [.blank],
    enterUnpack,
    [.line s!"let mut result = {plan.name}::default();",
      .line s!"result.{plan.tag} = {plan.layout.unpack}?;", .blank],
    choiceStrokes plan "result" fun arm => [.line (unpackText arm)],
    [.blank, .line "Ok(result)"],
    leave,
    leave, [.blank]]

/-- Entering the arm that is selected in the structural form, if it is
present. -/
def insertStrokes (arm : Arm) : List Stroke :=
  List.flatten [
    enter s!"Some({quoted arm.name}) =>",
    enter s!"if let Some(arm) = &self.{arm.name}", [.line (insertionText arm.name "arm")],
    leave, leave]

/-- Reading the arm that is selected from the structural form. -/
def readText (arm : Arm) : String :=
  s!"Some({quoted arm.name}) => result.{arm.name} = structural::arm(map, {quoted arm.name})?,"

/-- The structural form of a union. -/
def unionStructuralStrokes (plan : UnionPlan) : List Stroke :=
  List.flatten [
    enterStructural plan.name,
    enterToStructural,
    [.line "let mut map = Map::new();", .line (insertionText plan.tag s!"self.{plan.tag}")],
    if plan.arms.isEmpty then [] else [.blank],
    choiceStrokes plan "self" insertStrokes,
    [.blank, .line "Value::Object(map)"],
    leave, [.blank],
    enterFromStructural,
    [.line (objectText plan.name), .line s!"let mut result = {plan.name}::default();",
      .line s!"result.{plan.tag} = structural::field(map, {quoted plan.tag})?;", .blank],
    choiceStrokes plan "result" fun arm => [.line (readText arm)],
    [.blank, .line "Ok(result)"],
    leave,
    leave, [.blank]]

/-- Emits a union. -/
def unionStrokes (structural : Bool) (plan : UnionPlan) : List Stroke :=
  List.flatten [
    unionTypeStrokes plan, armStrokes plan, unionWireStrokes plan,
    if structural then unionStructuralStrokes plan else []]

end Xdr.Emit
