import Xdr.Emit.Phrase
import Xdr.Emit.Resolve

/-!
# Emitted enumerations

## Design Notes

A member given by a name is emitted by its number, since members of one
enumeration may refer to each other. The members that can be evaluated have
to be distinct and fit into 32 bits.
-/

namespace Xdr.Emit

/-- An enumeration with the text of each member's number. -/
structure EnumPlan where
  name : String
  members : List (String × String)
  deriving DecidableEq, Repr

/-- The text of a member's number. -/
def memberText (bundle : Bundle) (enum : String) (member : EnumMember) :
    Except EmitError String :=
  match member.value, bundle.evaluate member.value with
  | .literal text, _ => .ok text
  | .name _, some number => .ok (toString number)
  | .name unknown, none => .error (.unknownValue unknown s!"{enum}.{member.name}")

/-- Checks the number of a member against those of the members before it,
and adds it to them. -/
def checkMember (bundle : Bundle) (enum : String) (member : EnumMember) (seen : List Int) :
    Except EmitError (List Int) :=
  match bundle.evaluate member.value with
  | some number =>
    if number < -0x80000000 ∨ 0x80000000 ≤ number then
      .error (.outOfRange s!"{enum}.{member.name}" number "i32")
    else if seen.contains number then .error (.duplicateLabel enum member.value.text)
    else .ok (number :: seen)
  | none => .ok seen

/-- Checks members in order, given the numbers of those before them. -/
def memberTexts (bundle : Bundle) (enum : String) (seen : List Int) :
    List EnumMember → Except EmitError (List (String × String))
  | [] => .ok []
  | member :: members => do
    let text ← memberText bundle enum member
    let seen ← checkMember bundle enum member seen
    return (member.name, text) :: (← memberTexts bundle enum seen members)

/-- Checks an enumeration. -/
def enumPlan (bundle : Bundle) (decl : EnumDecl) : Except EmitError EnumPlan :=
  (memberTexts bundle decl.name [] decl.members).map fun members => ⟨decl.name, members⟩

open Stroke

/-- The type itself; its first member is the default. -/
def enumTypeStrokes (plan : EnumPlan) : List Stroke :=
  let lines := plan.members.map fun member => Stroke.line s!"{member.1} = {member.2},"
  List.flatten [
    [.line "#[derive(Debug, Clone, Copy, PartialEq, Eq, Hash, Default)]",
      .line "#[repr(i32)]"],
    enter s!"pub enum {plan.name}",
    if lines.isEmpty then [] else .line "#[default]" :: lines,
    leave, [.blank]]

/-- Looking a member up by something that `property` gives of it. -/
def findText (property : String) : String :=
  s!"Self::MEMBERS.iter().copied().find(|member| member.{property}() == {property})"

/-- The members with their numbers and names. -/
def enumImplStrokes (plan : EnumPlan) : List Stroke :=
  List.flatten [
    enter s!"impl {plan.name}",
    [.line s!"pub const MEMBERS: &'static [{plan.name}] = &[", .deeper],
    plan.members.map fun member => .line s!"{plan.name}::{member.1},",
    leaveWith "];", [.blank],
    enter "pub const fn value(self) -> i32", [.line "self as i32"], leave, [.blank],
    enter "pub fn from_value(value: i32) -> Option<Self>", [.line (findText "value")], leave,
    [.blank],
    enter "pub fn name(self) -> &'static str",
    enter "match self",
    plan.members.map fun member => .line s!"{plan.name}::{member.1} => {quoted member.1},",
    leave, leave, [.blank],
    enter "pub fn from_name(name: &str) -> Option<Self>", [.line (findText "name")], leave,
    leave, [.blank]]

/-- The number of a member as a value of 64 bits. -/
def enumNumberStrokes (plan : EnumPlan) : List Stroke :=
  List.flatten [
    enter s!"impl From<{plan.name}> for i64",
    enter s!"fn from(member: {plan.name}) -> i64", [.line "member as i64"], leave,
    leave, [.blank]]

/-- Looking a member up by the number `value`. -/
def fromValueStrokes (name : String) : List Stroke :=
  List.flatten [
    enter "Self::from_value(value).ok_or(XdrError::UnknownDiscriminant",
    [.line s!"name: {quoted name},", .line "value: value.into(),"],
    leaveWith "\x7d)"]

/-- Moving an enumeration over the wire. -/
def enumWireStrokes (plan : EnumPlan) : List Stroke :=
  List.flatten [
    enterWire plan.name,
    enterPack, [.line "packer.pack_int(self.value())"], leave, [.blank],
    enterUnpack, [.line "let value = unpacker.unpack_int()?;"], fromValueStrokes plan.name,
    leave, leave, [.blank]]

/-- The structural form of an enumeration. -/
def enumStructuralStrokes (plan : EnumPlan) : List Stroke :=
  List.flatten [
    enterStructural plan.name,
    enterToStructural, [.line "Value::from(self.name())"], leave, [.blank],
    enterFromStructural,
    enter "if let Some(member) = value.as_str()",
    enter "return Self::from_name(member).ok_or_else(|| XdrError::UnknownMember",
    [.line s!"name: {quoted plan.name},", .line "member: member.to_owned(),"],
    leaveWith "\x7d);",
    leave, [.blank],
    [.line "let value = i32::from_structural(value)?;"], fromValueStrokes plan.name, leave,
    leave, [.blank]]

/-- Emits an enumeration. -/
def enumStrokes (structural : Bool) (plan : EnumPlan) : List Stroke :=
  List.flatten [
    enumTypeStrokes plan, enumImplStrokes plan, enumNumberStrokes plan, enumWireStrokes plan,
    if structural then enumStructuralStrokes plan else []]

end Xdr.Emit
