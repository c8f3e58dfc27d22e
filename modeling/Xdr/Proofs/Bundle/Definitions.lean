import Xdr.Bundle.Basic
import Xdr.Proofs.Table

/-!
# The definitions of a name

A name can have several definitions: a member may be called like a constant
or like a member of another enumeration, and a constant from outside may be
called like a truth value.  Evaluation follows the first of them, and
emitted code refers to the last.

## Main Statements

* `Bundle.find?_expressions` — a name is emitted as a reference to its last
  definition
* `Bundle.evaluateWithin_name` — and evaluated through its first
-/

namespace Xdr

open List

/-- What the expression of a name refers to. -/
inductive Reference where
  | truth (value : Bool)
  | constant (name : String)
  | member (enum name : String)
  deriving DecidableEq, Repr

namespace Reference

/-- The name that is defined. -/
def name : Reference → String
  | .truth true => "TRUE"
  | .truth false => "FALSE"
  | .constant name => name
  | .member _ name => name

/-- The expression that refers to it. -/
def text : Reference → String
  | .truth true => "true"
  | .truth false => "false"
  | .constant name => "constant::" ++ name
  | .member enum name => enum ++ "::" ++ name

end Reference

/-- A definition of a name: how it is referred to, and what it stands for. -/
structure Definition where
  reference : Reference
  value : IntExpr
  deriving DecidableEq, Repr

namespace Bundle

variable {bundle : Bundle}

/-- The definitions of the truth values. -/
def truths : List Definition :=
  [⟨.truth true, .literal "1"⟩, ⟨.truth false, .literal "0"⟩]

/-- The definitions that the constants are. -/
def constDefinitions (bundle : Bundle) : List Definition :=
  bundle.consts.map fun decl => ⟨.constant decl.name, decl.value⟩

/-- The definitions that the members of enumerations are. -/
def memberDefinitions (bundle : Bundle) : List Definition :=
  bundle.enums.flatMap fun decl => decl.members.map fun member =>
    ⟨.member decl.name member.name, member.value⟩

/-- All definitions: the truth values, the constants, and the members of
enumerations. -/
def definitions (bundle : Bundle) : List Definition :=
  truths ++ bundle.constDefinitions ++ bundle.memberDefinitions

/-- The definitions of one name. -/
def definitionsOf (bundle : Bundle) (name : String) : List Definition :=
  bundle.definitions.filter fun definition => definition.reference.name == name

/-- What emitted code refers to by a name: its last definition. -/
def reference? (bundle : Bundle) (name : String) : Option Reference :=
  (bundle.definitionsOf name).getLast?.map Definition.reference

/-! ### References -/

theorem expressions_eq_insertAll (bundle : Bundle) :
    bundle.expressions = Table.insertAll []
      (bundle.definitions.map fun definition =>
        (definition.reference.name, definition.reference.text)) := by
  rw [definitions, map_append, map_append, Table.insertAll_append, Table.insertAll_append,
    constDefinitions, memberDefinitions, map_map, map_flatMap]
  simp only [map_map]
  rfl

/-- The expression of a name refers to its last definition. -/
theorem find?_expressions (bundle : Bundle) (name : String) :
    bundle.expressions.find? name = (bundle.reference? name).map Reference.text := by
  rw [expressions_eq_insertAll, Table.find?_insertAll, filter_map, getLast?_map,
    Option.map_map, reference?, Option.map_map]
  exact Option.or_none

/-! ### Evaluation -/

/-- The value of the first definition of a name, by the names and values
alone. -/
theorem head?_filter_eq_find? (list : List Definition) (name : String) :
    (list.filter fun definition =>
      definition.reference.name == name).head?.map Definition.value =
      ((list.map fun definition =>
        (definition.reference.name, definition.value)).find? fun entry =>
        entry.1 == name).map Prod.snd := by
  rw [head?_filter, find?_map, Option.map_map]
  rfl

theorem map_memberDefinitions (bundle : Bundle) :
    (bundle.memberDefinitions.map fun definition =>
      (definition.reference.name, definition.value)) =
      bundle.members.map fun member => (member.name, member.value) := by
  rw [memberDefinitions, members, map_flatMap, map_flatMap]
  simp only [map_map]
  rfl

theorem definition?_eq_head? (bundle : Bundle) (name : String) :
    bundle.definition? name =
      ((bundle.constDefinitions ++ bundle.memberDefinitions).filter fun definition =>
        definition.reference.name == name).head?.map Definition.value := by
  rw [head?_filter_eq_find?, map_append, map_memberDefinitions, constDefinitions, map_map,
    find?_append, find?_map, find?_map, definition?]
  cases hconst : bundle.consts.find? fun decl => decl.name == name with
  | some decl => simp [Function.comp_def, Reference.name, hconst]
  | none => simp [Function.comp_def, Reference.name, hconst]

@[simp] theorem evaluateWithin_literal (bundle : Bundle) (steps : Nat) (text : String) :
    bundle.evaluateWithin steps (.literal text) = Numeral.value? text.toList := by
  cases steps <;> rfl

/-- Evaluation goes from a name to its first definition. -/
theorem evaluateWithin_name (bundle : Bundle) (steps : Nat) (name : String) :
    bundle.evaluateWithin (steps + 1) (.name name) =
      (bundle.definitionsOf name).head?.bind fun definition =>
        bundle.evaluateWithin steps definition.value := by
  rw [evaluateWithin, definitionsOf, definitions, append_assoc, filter_append, head?_append]
  by_cases htrue : name = "TRUE"
  · have htruths : (truths.filter fun definition => definition.reference.name == "TRUE") =
        [⟨.truth true, .literal "1"⟩] := by decide
    rw [if_pos htrue, htrue, htruths]
    exact (evaluateWithin_literal bundle steps "1").symm
  by_cases hfalse : name = "FALSE"
  · have htruths : (truths.filter fun definition => definition.reference.name == "FALSE") =
        [⟨.truth false, .literal "0"⟩] := by decide
    rw [if_neg htrue, if_pos hfalse, hfalse, htruths]
    exact (evaluateWithin_literal bundle steps "0").symm
  have htruths : (truths.filter fun definition =>
    definition.reference.name == name) = [] := by
    simp [truths, Reference.name, Ne.symm htrue, Ne.symm hfalse]
  rw [if_neg htrue, if_neg hfalse, definition?_eq_head?, htruths, head?_nil, Option.none_or]
  cases ((bundle.constDefinitions ++ bundle.memberDefinitions).filter fun definition =>
    definition.reference.name == name).head? <;> rfl

/-- More steps do not change a value. -/
theorem evaluateWithin_mono {steps more} (hle : steps ≤ more) {expr value}
    (h : bundle.evaluateWithin steps expr = some value) :
    bundle.evaluateWithin more expr = some value := by
  induction steps generalizing more expr with
  | zero =>
    cases expr with
    | literal text => rwa [evaluateWithin_literal] at h ⊢
    | name name => cases h
  | succ steps ih =>
    cases expr with
    | literal text => rwa [evaluateWithin_literal] at h ⊢
    | name name =>
      obtain ⟨more, rfl⟩ :=
        Nat.exists_eq_add_of_le' (Nat.lt_of_lt_of_le (Nat.succ_pos steps) hle)
      rw [evaluateWithin_name, Option.bind_eq_some_iff] at h ⊢
      obtain ⟨first, hfirst, hvalue⟩ := h
      exact ⟨first, hfirst, ih (Nat.le_of_succ_le_succ hle) hvalue⟩

/-! ### What is emitted -/

/-- The integers that a reference stands for, as they are written in the
bundle. -/
inductive RefersTo (bundle : Bundle) : Reference → IntExpr → Prop where
  | true : RefersTo bundle (.truth true) (.literal "1")
  | false : RefersTo bundle (.truth false) (.literal "0")
  | constant {decl} (h : decl ∈ bundle.consts) :
      RefersTo bundle (.constant decl.name) decl.value
  | member {decl member} (hdecl : decl ∈ bundle.enums) (hmember : member ∈ decl.members) :
      RefersTo bundle (.member decl.name member.name) member.value

/-- A reference stands for what is so defined. -/
theorem refersTo_iff {reference item} :
    bundle.RefersTo reference item ↔ ⟨reference, item⟩ ∈ bundle.definitions := by
  rw [definitions, mem_append, mem_append, truths, constDefinitions, memberDefinitions,
    mem_map, mem_flatMap]
  constructor
  · intro h
    cases h with
    | true => simp
    | false => simp
    | constant hdecl => exact .inl (.inr ⟨_, hdecl, rfl⟩)
    | member hdecl hmember => exact .inr ⟨_, hdecl, mem_map.mpr ⟨_, hmember, rfl⟩⟩
  · rintro ((htruth | ⟨decl, hdecl, heq⟩) | ⟨decl, hdecl, hmap⟩)
    · rcases mem_pair.mp htruth with heq | heq <;> cases heq
      · exact .true
      · exact .false
    · cases heq
      exact .constant hdecl
    · obtain ⟨member, hmember, heq⟩ := mem_map.mp hmap
      cases heq
      exact .member hdecl hmember

theorem mem_definitionsOf {name definition} :
    definition ∈ bundle.definitionsOf name ↔
      definition ∈ bundle.definitions ∧ definition.reference.name = name := by
  rw [definitionsOf, mem_filter, beq_iff_eq]

/-- The number that a reference has in emitted code.  A member is emitted as
the number it was evaluated to, and a constant as its literal or as the
expression of a name. -/
inductive Denotes (bundle : Bundle) : Reference → Int → Prop where
  | true : Denotes bundle (.truth true) 1
  | false : Denotes bundle (.truth false) 0
  | member {decl member value} (hdecl : decl ∈ bundle.enums) (hmember : member ∈ decl.members)
      (hvalue : bundle.evaluate member.value = some value) :
      Denotes bundle (.member decl.name member.name) value
  | literal {decl text value} (hdecl : decl ∈ bundle.consts)
      (htext : decl.value = .literal text)
      (hvalue : Numeral.value? text.toList = some value) :
      Denotes bundle (.constant decl.name) value
  | named {decl other reference value} (hdecl : decl ∈ bundle.consts)
      (hother : decl.value = .name other)
      (hreference : bundle.reference? other = some reference)
      (hvalue : Denotes bundle reference value) : Denotes bundle (.constant decl.name) value

end Bundle
end Xdr
