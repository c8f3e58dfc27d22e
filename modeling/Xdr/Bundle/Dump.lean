import Xdr.Bundle.Basic
import Xdr.Bundle.Primitive
import Xdr.Decl.Dump

/-!
# Bundles as JSON
-/

namespace Xdr.Bundle

/-- The routine of each primitive type, by the type's spelling. -/
def routinesJson : Json :=
  .object <| TypeRef.primitives.filterMap fun type =>
    type.primitive?.map fun primitive => (type.text, .string primitive.routine)

/-- The host type of each routine, by the routine's name. -/
def hostsJson : Json :=
  .object <| Primitive.all.map fun primitive => (primitive.routine, .string primitive.host)

/-- How emitted code refers to names, by name. -/
def expressionsJson (bundle : Bundle) : Json :=
  .object <| bundle.expressions.sorted.map fun (name, expr) => (name, .string expr)

/-- A bundle as JSON. -/
def toJson (bundle : Bundle) : Json :=
  .object [
    ("const", .array (bundle.consts.map fun decl => .object decl.jsonMembers)),
    ("enum", .array (bundle.enums.map fun decl => .object decl.jsonMembers)),
    ("struct", .array (bundle.structs.map fun decl => .object decl.jsonMembers)),
    ("union", .array (bundle.unions.map fun decl => .object decl.jsonMembers)),
    ("typedef", .array (bundle.typedefs.map fun decl => .object decl.jsonMembers)),
    ("program", .array (bundle.programs.map fun decl => .object decl.jsonMembers)),
    ("id2val", bundle.expressionsJson),
    ("basetype", routinesJson),
    ("typemap", hostsJson)]

end Xdr.Bundle
