import Xdr.Emit.Phrase
import Xdr.Emit.Resolve

/-!
# Emitted structures and type definitions

## Design Notes

Fields are packed and unpacked in the order of their declaration, each once.
A type definition is emitted as a structure with one field that has no name.
-/

namespace Xdr.Emit

/-- A structure with the layout of each field. -/
structure StructPlan where
  name : String
  fields : List (String × Layout)
  deriving DecidableEq, Repr

/-- Finds the layouts of a structure's fields. -/
def structPlan (bundle : Bundle) (decl : StructDecl) : Except EmitError StructPlan := do
  let fields ← decl.fields.mapM fun field => do
    return (field.name, ← bundle.layout field.type field.form s!"{decl.name}.{field.name}")
  return ⟨decl.name, fields⟩

open Stroke

/-- The type itself. -/
def structTypeStrokes (plan : StructPlan) : List Stroke :=
  List.flatten [
    [.line deriveText],
    enter s!"pub struct {plan.name}",
    plan.fields.map fun field => .line s!"pub {field.1}: {field.2.host},",
    leave, [.blank]]

/-- Moving a structure over the wire. -/
def structWireStrokes (plan : StructPlan) : List Stroke :=
  List.flatten [
    enterWire plan.name,
    enterPack,
    plan.fields.map fun field => .line (field.2.pack (.place s!"self.{field.1}") ++ "?;"),
    [.line "Ok(())"],
    leave, [.blank],
    enterUnpack,
    enter s!"Ok({plan.name}",
    plan.fields.map fun field => .line s!"{field.1}: {field.2.unpack}?,",
    leaveWith "\x7d)",
    leave,
    leave, [.blank]]

/-- The structural form of a structure. -/
def structStructuralStrokes (plan : StructPlan) : List Stroke :=
  List.flatten [
    enterStructural plan.name,
    enterToStructural,
    [.line "let mut map = Map::new();"],
    plan.fields.map fun field => .line (insertionText field.1 s!"self.{field.1}"),
    [.line "Value::Object(map)"],
    leave, [.blank],
    enterFromStructural,
    [.line (objectText plan.name)],
    enter s!"Ok({plan.name}",
    plan.fields.map fun field =>
      .line s!"{field.1}: structural::field(map, {quoted field.1})?,",
    leaveWith "\x7d)",
    leave,
    leave, [.blank]]

/-- Emits a structure. -/
def structStrokes (structural : Bool) (plan : StructPlan) : List Stroke :=
  List.flatten [
    structTypeStrokes plan, structWireStrokes plan,
    if structural then structStructuralStrokes plan else []]

/-- A type definition with its layout. -/
structure AliasPlan where
  name : String
  layout : Layout
  deriving DecidableEq, Repr

/-- Finds the layout of a type definition. -/
def aliasPlan (bundle : Bundle) (decl : Field) : Except EmitError AliasPlan :=
  (bundle.layout decl.type decl.form decl.name).map fun layout => ⟨decl.name, layout⟩

/-- The type itself, and how a value of it is made. -/
def aliasTypeStrokes (plan : AliasPlan) : List Stroke :=
  List.flatten [
    [.line deriveText, .line s!"pub struct {plan.name}(pub {plan.layout.host});", .blank],
    enter s!"impl From<{plan.layout.host}> for {plan.name}",
    enter s!"fn from(value: {plan.layout.host}) -> Self", [.line s!"{plan.name}(value)"],
    leave, leave, [.blank]]

/-- Moving a value of a type definition over the wire. -/
def aliasWireStrokes (plan : AliasPlan) : List Stroke :=
  List.flatten [
    enterWire plan.name,
    enterPack, [.line (plan.layout.pack (.place "self.0"))], leave, [.blank],
    enterUnpack, [.line s!"Ok({plan.name}({plan.layout.unpack}?))"], leave,
    leave, [.blank]]

/-- The structural form of a type definition. -/
def aliasStructuralStrokes (plan : AliasPlan) : List Stroke :=
  List.flatten [
    enterStructural plan.name,
    enterToStructural, [.line "self.0.to_structural()"], leave, [.blank],
    enterFromStructural,
    [.line s!"<{plan.layout.host} as Structural>::from_structural(value).map({plan.name})"],
    leave,
    leave, [.blank]]

/-- Emits a type definition. -/
def aliasStrokes (structural : Bool) (plan : AliasPlan) : List Stroke :=
  List.flatten [
    aliasTypeStrokes plan, aliasWireStrokes plan,
    if structural then aliasStructuralStrokes plan else []]

end Xdr.Emit
