import Xdr.Interface.Procedure
import Xdr.Schema.Basic

/-!
# The calculator interface

A small interface with a record, an enumeration, unions with and without a
default, and a list that goes through a union.
-/

namespace Xdr.Calculator

/-- The constant `MAX`. -/
def max : Int := 10

/-- A point of the plane. -/
def point : TypeDef :=
  .record [⟨"x", .int⟩, ⟨"y", .int⟩]

/-- A colour. -/
def color : TypeDef :=
  .enumeration ⟨[("RED", 0), ("GREEN", 1), ("BLUE", 2)]⟩

/-- A message: a number, a text, or nothing under any other kind. -/
def msg : TypeDef :=
  .union {
    tag := ⟨"kind", .int⟩
    arms := [⟨"ival", .int⟩, ⟨"sval", .text none⟩]
    branches := [(0, some "ival"), (1, some "sval")]
    fallback := none }

/-- A number under one kind only. -/
def opt : TypeDef :=
  .union {
    tag := ⟨"k", .int⟩
    arms := [⟨"x", .int⟩]
    branches := [(1, some "x")]
    fallback := none }

/-- The rest of a list: a node, or the end. -/
def chain : TypeDef :=
  .union {
    tag := ⟨"more", .bool⟩
    arms := [⟨"n", .named "node"⟩]
    branches := [(1, some "n"), (0, none)]
    fallback := none }

/-- A list that is not empty. -/
def node : TypeDef :=
  .record [⟨"v", .int⟩, ⟨"next", .named "chain"⟩]

/-- The types of the interface, by kind. -/
def schema : Schema :=
  [("Color", color), ("Point", point), ("node", node), ("Msg", msg), ("Opt", opt),
    ("chain", chain)]

/-- The procedures of the interface. -/
def procedures : List Procedure :=
  [⟨100, 1, 1, "CALC.CALCV1.add"⟩]

end Xdr.Calculator
