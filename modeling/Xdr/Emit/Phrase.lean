import Xdr.Emit.Stroke

/-!
# Phrases of emitted code

The lines and headers that several kinds of declarations share.
-/

namespace Xdr.Emit

open Stroke

/-- A text between double quotes. Names need no escapes. -/
def quoted (text : String) : String :=
  "\"" ++ text ++ "\""

/-- The attribute of emitted structures. -/
def deriveText : String :=
  "#[derive(Debug, Clone, PartialEq, Default)]"

/-- Opens the functions of a wire type. -/
def enterWire (name : String) : List Stroke :=
  enter s!"impl Xdr for {name}"

/-- Opens the function that packs a value. -/
def enterPack : List Stroke :=
  enter "fn pack(&self, packer: &mut Packer) -> ::xdr_runtime::Result<()>"

/-- Opens the function that unpacks a value. -/
def enterUnpack : List Stroke :=
  enter "fn unpack(unpacker: &mut Unpacker<'_>) -> ::xdr_runtime::Result<Self>"

/-- Opens the functions of a type with a structural form. -/
def enterStructural (name : String) : List Stroke :=
  enter s!"impl Structural for {name}"

/-- Opens the function that gives the structural form of a value. -/
def enterToStructural : List Stroke :=
  enter "fn to_structural(&self) -> Value"

/-- Opens the function that reads the structural form of a value. -/
def enterFromStructural : List Stroke :=
  enter "fn from_structural(value: &Value) -> ::xdr_runtime::Result<Self>"

/-- Entering a component in the map of a structural form. -/
def insertionText (name value : String) : String :=
  s!"map.insert({quoted name}.to_owned(), {value}.to_structural());"

/-- Looking at a structural form as an object. -/
def objectText (name : String) : String :=
  s!"let map = structural::object(value, {quoted name})?;"

/-- Taking over the names of the enclosing module. -/
def superStrokes : List Stroke :=
  [.line "use super::*;", .blank]

/-- The strokes of a declaration that was checked, or the point where it
fails. -/
def checkedStrokes {α : Type} (plan : Except EmitError α) (strokes : α → List Stroke) :
    List Stroke :=
  match plan with
  | .ok value => strokes value
  | .error error => [.fail error]

end Xdr.Emit
