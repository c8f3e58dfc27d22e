import Xdr.Compile
import Xdr.Interface.Calculator
import Xdr.Interface.Directory

/-!
# Where the sample interfaces come from

A schema is what the emitter lays out.  `Schema.ofBundle` reads it off the
plans of the emitter: the layout of each field becomes a type, and the
emitted expression of each length, member and label becomes the number that
it stands for.  The schemas of the sample interfaces are those of their
definitions.

## Main Definitions

* `Layout.type?` — the type that a layout moves over the wire
* `Schema.ofBundle` — the schema of a bundle
* `Procedure.ofBundle` — the procedures of a bundle

## Main Statements

* `Schema.keys_ofBundle` — a schema has the enumerations, structures and
  unions of its bundle
* `Calculator.exists_bundle_source`, `Directory.exists_bundle_source` — the
  sample interfaces

## Design Notes

A type definition is emitted as a type of its own, but shows in neither form
of a value.  So it is written out where it is used, through as many type
definitions as an emitted discriminant may lead through.
-/

namespace Xdr

open List Option

/-! ### Emitted expressions -/

/-- The integer that an emitted expression stands for: a literal, or a known
name with a cast. -/
def Bundle.meaning? (bundle : Bundle) (cast text : String) : Option Int :=
  match Numeral.value? text.toList with
  | some number => some number
  | none => do
    let (name, _) ← find? (fun entry => entry.2 ++ " as " ++ cast == text) bundle.expressions
    bundle.evaluate (.name name)

/-- The length that an emitted expression stands for. -/
def Bundle.length? (bundle : Bundle) (text : String) : Option UInt32 :=
  (bundle.meaning? "u32" text).map fun number => UInt32.ofNat number.toNat

/-! ### Types -/

/-- The type of a shape, given those of declared names. -/
def Shape.type? (named : String → Option Ty) : Shape → Option Ty
  | .primitive .int => some .int
  | .primitive .uint => some .uint
  | .primitive .bool => some .bool
  | .primitive .hyper => some .hyper
  | .primitive .uhyper => some .uhyper
  | .primitive .float => some .float
  | .primitive .double => some .double
  | .primitive .string => some (.text none)
  | .primitive .opaqueData => some (.bytes none)
  | .composite name => named name

/-- A type for each length: one with a fixed length, and one with a limit. -/
def Length.type? (number : String → Option UInt32) (fixed : UInt32 → Ty)
    (limited : Option UInt32 → Ty) : Length → Option Ty
  | .fixed length => (number length).map fixed
  | .bounded none => some (limited none)
  | .bounded (some bound) => (number bound).map fun limit => limited (some limit)

/-- The type that a layout moves over the wire. -/
def Layout.type? (named : String → Option Ty) (number : String → Option UInt32) :
    Layout → Option Ty
  | .raw shape => shape.type? named
  | .blob .string length => length.type? number .fixedText .text
  | .blob .opaqueData length => length.type? number .fixedBytes .bytes
  | .blob _ _ => none
  | .array shape length => do
    let item ← shape.type? named
    length.type? number (.fixedArray item) (.array item)
  | .optional shape => (shape.type? named).map .optional

namespace Bundle

open Emit

/-- The type that a declared name stands for, through at most `steps` type
definitions. -/
def namedType? (bundle : Bundle) : Nat → String → Option Ty
  | 0, _ => none
  | steps + 1, name =>
    match bundle.resolve? name with
    | some (.typeDef decl) => do
      let plan ← (aliasPlan bundle decl).toOption
      plan.layout.type? (namedType? bundle steps) bundle.length?
    | some _ => some (.named name)
    | none => none

/-- The type of a laid out field. -/
def typeOf? (bundle : Bundle) (layout : Layout) : Option Ty :=
  layout.type? (bundle.namedType? maxAliases) bundle.length?

/-- The definition of an emitted enumeration. -/
def enumDef? (bundle : Bundle) (plan : EnumPlan) : Option TypeDef := do
  let members ← plan.members.mapM fun (name, text) => do
    return (name, Int32.ofInt (← bundle.meaning? "i32" text))
  return .enumeration ⟨members⟩

/-- The definition of an emitted structure. -/
def recordDef? (bundle : Bundle) (plan : StructPlan) : Option TypeDef := do
  let fields ← plan.fields.mapM fun (name, layout) => do
    return (⟨name, ← bundle.typeOf? layout⟩ : Component)
  return .record fields

/-- The definition of an emitted union. -/
def unionDef? (bundle : Bundle) (plan : UnionPlan) : Option TypeDef := do
  let tag ← bundle.typeOf? plan.layout
  let arms ← plan.arms.mapM fun arm => do
    return (⟨arm.name, ← bundle.typeOf? arm.layout⟩ : Component)
  let branches ← plan.branches.mapM fun (label, target) => do
    return (← bundle.meaning? "i64" label, target)
  return .union ⟨⟨plan.tag, tag⟩, arms, branches, plan.fallback⟩

end Bundle

/-- The definitions of some declarations under their names, if each can be
emitted. -/
def Schema.entries {α β : Type} (name : α → String) (plan : α → Except EmitError β)
    (define : β → Option TypeDef) (decls : List α) : Option Schema :=
  decls.mapM fun decl => do
    return (name decl, ← define (← (plan decl).toOption))

/-- The schema of a bundle: its enumerations, its structures and its unions.
-/
def Schema.ofBundle (bundle : Bundle) : Option Schema := do
  let enums ← entries EnumDecl.name (Emit.enumPlan bundle) bundle.enumDef? bundle.enums
  let structs ← entries StructDecl.name
    (Emit.structPlan bundle) bundle.recordDef? bundle.structs
  let unions ← entries UnionDecl.name (Emit.unionPlan bundle) bundle.unionDef? bundle.unions
  return enums ++ structs ++ unions

/-- The procedures of a bundle, by program, version and number. -/
def Procedure.ofBundle (bundle : Bundle) : Option (List Procedure) := do
  let programs ← bundle.programs.mapM fun decl => do
    let program ← (bundle.unsignedText decl.number decl.name).toOption
    decl.versions.mapM fun version => do
      let plan ← (Emit.versionPlan bundle decl.name version).toOption
      plan.procs.mapM fun proc => do
        return (⟨← bundle.length? program, ← bundle.length? plan.id, ← bundle.length? proc.id,
          proc.path⟩ : Procedure)
  return programs.flatten.flatten

/-! ### Names -/

namespace Schema

/-- A list of entries has the names of its declarations. -/
theorem map_fst_entries {α β : Type} {name : α → String} {plan : α → Except EmitError β}
    {define : β → Option TypeDef} {decls : List α} {schema : Schema}
    (h : entries name plan define decls = some schema) :
    schema.map Prod.fst = decls.map name := by
  induction decls generalizing schema with
  | nil =>
    cases h
    rfl
  | cons decl decls ih =>
    simp only [entries, mapM_cons, bind_eq_bind, bind_eq_some_iff] at h
    obtain ⟨_, ⟨found, -, entry, -, hentry⟩, rest, hrest, hschema⟩ := h
    cases hentry
    cases hschema
    rw [map_cons, map_cons, ih hrest]

/-- **A schema has the enumerations, structures and unions of its bundle.** -/
theorem keys_ofBundle {bundle : Bundle} {schema : Schema}
    (h : ofBundle bundle = some schema) :
    schema.map Prod.fst = bundle.enums.map EnumDecl.name ++
      bundle.structs.map StructDecl.name ++ bundle.unions.map UnionDecl.name := by
  simp only [ofBundle, bind_eq_bind, bind_eq_some_iff] at h
  obtain ⟨enums, henums, structs, hstructs, unions, hunions, heq⟩ := h
  cases heq
  rw [map_append, map_append, map_fst_entries henums, map_fst_entries hstructs,
    map_fst_entries hunions]

end Schema

/-- A property that is decided of a result holds of the result that was
found. -/
theorem exists_ok_of_any {ε α : Type} {result : Except ε α} {P} [DecidablePred P]
    (h : (result.toOption.any fun found => P found) = true) :
    ∃ found, result = .ok found ∧ P found := by
  cases result with
  | error error => cases h
  | ok found => exact ⟨found, rfl, of_decide_eq_true h⟩

/-! ### The calculator -/

namespace Calculator

/-- The definition of the interface. -/
def source : String :=
  String.join [
    "/*\n",
    " * Escenarios de extremo a extremo: constantes, estructuras,\n",
    " * enums, uniones y programas.\n",
    " */\n",
    "\n",
    "const MAX = 10;\n",
    "\n",
    "struct Point \x7b\n",
    "    int x;\n",
    "    int y;\n",
    "\x7d;\n",
    "\n",
    "enum Color \x7b RED = 0, GREEN = 1, BLUE = 2 \x7d;\n",
    "\n",
    "union Msg switch (int kind) \x7b\n",
    "    case 0: int ival;\n",
    "    case 1: string sval;\n",
    "    default: void\n",
    "\x7d;\n",
    "\n",
    "union Opt switch (int k) \x7b\n",
    "    case 1: int x;\n",
    "\x7d;\n",
    "\n",
    "/* Lista enlazada a través de una unión */\n",
    "union chain switch (bool more) \x7b\n",
    "    case TRUE: node n;\n",
    "    case FALSE: void;\n",
    "\x7d;\n",
    "\n",
    "struct node \x7b\n",
    "    int v;\n",
    "    chain next;\n",
    "\x7d;\n",
    "\n",
    "program CALC \x7b\n",
    "    version CALCV1 \x7b\n",
    "        int add(int) = 1;\n",
    "    \x7d = 1;\n",
    "\x7d = 100;\n"]

/-- **The calculator comes from its definition.** -/
theorem exists_bundle_source :
    ∃ bundle, Compile.bundle ⟨[], .standard⟩ "idl/scenarios.x" source = .ok bundle ∧
      Schema.ofBundle bundle = some schema ∧ Procedure.ofBundle bundle = some procedures ∧
      bundle.evaluate (.name "MAX") = some max := by
  refine exists_ok_of_any ?_
  decide +kernel

end Calculator

/-! ### The directory -/

namespace Directory

/-- The definition of the interface. -/
def source : String :=
  String.join [
    "% /* Las líneas con '%' pasan de largo */\n",
    "const NAME_LIMIT = 8;\n",
    "const SLOTS = 3;\n",
    "\n",
    "typedef opaque digest[4];\n",
    "typedef string label<NAME_LIMIT>;\n",
    "typedef int score;\n",
    "\n",
    "enum shape_kind \x7b\n",
    "    CIRCLE = 1,\n",
    "    SQUARE = 2,\n",
    "    NOTHING = 010\n",
    "\x7d;\n",
    "\n",
    "struct circle \x7b\n",
    "    double radius;\n",
    "\x7d;\n",
    "\n",
    "struct square \x7b\n",
    "    float side;\n",
    "    bool filled;\n",
    "\x7d;\n",
    "\n",
    "union shape switch (shape_kind kind) \x7b\n",
    "    case CIRCLE:\n",
    "        circle disk;\n",
    "    case SQUARE:\n",
    "        square tile;\n",
    "    case NOTHING:\n",
    "        void;\n",
    "\x7d;\n",
    "\n",
    "struct entry \x7b\n",
    "    label name;\n",
    "    unsigned hyper id;\n",
    "    hyper delta;\n",
    "    score slots[SLOTS];\n",
    "    int history<>;\n",
    "    digest hash;\n",
    "    shape figure;\n",
    "    entry *next;\n",
    "    int *weight;\n",
    "\x7d;\n",
    "\n",
    "typedef entry *list;\n",
    "\n",
    "program DIRECTORY \x7b\n",
    "    version DIRECTORY_V1 \x7b\n",
    "        void reset(void) = 0;\n",
    "        list lookup(label) = 1;\n",
    "        bool store(entry) = 2;\n",
    "    \x7d = 1;\n",
    "\x7d = 0x20000042;\n"]

/-- **The directory comes from its definition**, with what its type
definitions stand for. -/
theorem exists_bundle_source :
    ∃ bundle, Compile.bundle ⟨[], .standard⟩ "idl/shapes.x" source = .ok bundle ∧
      Schema.ofBundle bundle = some schema ∧ Procedure.ofBundle bundle = some procedures ∧
      ["digest", "label", "score", "list"].map (bundle.namedType? Bundle.maxAliases) =
        [some digest, some label, some score, some list] ∧
      ["NAME_LIMIT", "SLOTS"].map (fun name => bundle.evaluate (.name name)) =
        [some (nameLimit.toNat : Int), some (slots.toNat : Int)] := by
  refine exists_ok_of_any ?_
  decide +kernel

end Directory
end Xdr
