import Xdr.Proofs.Emit.Mirror
import Xdr.Proofs.Emit.Range

/-!
# The lines of constants and programs

The module of the constants and the modules of every program, line by line,
from the declarations alone.

## Main Statements

* `Bundle.valueText_eq`, `Bundle.signatureText_eq` — what is found for an
  integer or a type is its expression
* `Emit.text_of_consts`, `Emit.text_of_program` — the modules stand in the
  emitted text
-/

namespace Xdr

open Xdr.Bundle List

/-! ### Expressions -/

/-- The type of emitted code for an argument or a result. -/
def TypeRef.signature : TypeRef → String
  | .named name => name
  | type => (type.primitive?.map Primitive.host).getD "()"

/-- The name of a declared type. -/
def TypeRef.declared? : TypeRef → Option String
  | .named name => some name
  | _ => none

/-- The declared types in the signature of a procedure. -/
def ProcDecl.typeNames (proc : ProcDecl) : List String :=
  [proc.arg, proc.res].filterMap TypeRef.declared?

namespace Bundle

variable {bundle : Bundle} {value : IntExpr} {cast context text : String}

/-- What an integer refers to in emitted code, if it is given by a name. -/
def referent? (bundle : Bundle) : IntExpr → Option Reference
  | .literal _ => none
  | .name name => bundle.reference? name

/-- The expression of an integer: a literal itself, and a name as what it
refers to, cast to the type `cast`. -/
def expression (bundle : Bundle) (cast : String) (value : IntExpr) : String :=
  match bundle.referent? value with
  | some reference => reference.text ++ " as " ++ cast
  | none => value.text

theorem valueText_eq (h : bundle.valueText value cast context = .ok text) :
    text = bundle.expression cast value := by
  cases value with
  | literal digits =>
    cases h
    rfl
  | name name =>
    rw [valueText, find?_expressions] at h
    rw [expression, referent?]
    cases hreference : bundle.reference? name with
    | none =>
      rw [hreference] at h
      cases h
    | some reference =>
      rw [hreference] at h
      exact (Except.ok.inj h).symm

theorem unsignedText_eq (h : bundle.unsignedText value context = .ok text) :
    text = bundle.expression "u32" value := by
  rw [unsignedText] at h
  split at h
  · split at h
    · cases h
    · split at h
      · cases h
      · exact valueText_eq h
  · exact valueText_eq h

theorem signatureText_eq {type : TypeRef} (h : bundle.signatureText type context = .ok text) :
    text = type.signature := by
  cases type with
  | void | int | uint | hyper | uhyper | float | double | bool | string |
    opaqueData | netobj =>
    cases h
    rfl
  | named name =>
    obtain ⟨layout, hlayout, rfl⟩ := map_eq_ok.mp h
    obtain ⟨found, hshape, hlayout⟩ := bind_eq_ok.mp hlayout
    rw [shape] at hshape
    dsimp only [TypeRef.primitive?] at hshape
    split at hshape
    · cases hshape
      cases hlayout
      rfl
    · cases hshape

end Bundle

namespace Emit

open Doc Stroke

variable {bundle : Bundle}

/-! ### Lines -/

/-- The line that takes over the names of the enclosing module. -/
def scopeLine (level : Nat) : String :=
  indented level "use super::*;"

/-- The lines of a module with some items, which takes over the names around
it if it is `opened`. -/
def moduleLines (level : Nat) (name : String) (opened : Bool) (items : List String) :
    List String :=
  [indented level ("pub mod " ++ name ++ " \x7b")] ++
    (if opened then [scopeLine (level + 1), ""] else []) ++ items ++ [indented level "\x7d"]

/-- The number of a program, version or procedure. -/
def idLine (bundle : Bundle) (level : Nat) (number : IntExpr) : String :=
  indented level ("pub const ID: u32 = " ++ bundle.expression "u32" number ++ ";")

/-- The module of the constants, opened if one of them is given by a name. -/
def constLines (bundle : Bundle) : List String :=
  moduleLines 0 "constant" (bundle.consts.any fun decl => isByName decl.value)
    (bundle.consts.map fun decl =>
      indented 1 ("pub const " ++ decl.name ++ ": i64 = " ++
        bundle.expression "i64" decl.value ++ ";"))

/-- The module of a procedure, opened if its signature has a declared type. -/
def procLines (bundle : Bundle) (service : String) (proc : ProcDecl) : List String :=
  moduleLines 2 proc.name (proc.typeNames ≠ [])
    [idLine bundle 3 proc.id,
      indented 3 ("pub const NAME: &str = " ++ quoted (service ++ "." ++ proc.name) ++ ";"),
      indented 3 ("pub type Arg = " ++ proc.arg.signature ++ ";"),
      indented 3 ("pub type Res = " ++ proc.res.signature ++ ";")]

/-- The table of the procedures of a version. -/
def tableLines (procs : List ProcDecl) : List String :=
  if procs.isEmpty then [indented 2 "pub const PROCEDURES: &[Procedure] = &[];"]
  else
    [indented 2 "pub const PROCEDURES: &[Procedure] = &["] ++
      procs.map (fun proc => indented 3
        ("Procedure \x7b program: super::ID, version: ID, id: " ++ proc.name ++
          "::ID, name: " ++ proc.name ++ "::NAME \x7d,")) ++
      [indented 2 "];"]

/-- The trait with a method for each procedure of a version. -/
def serviceLines (procs : List ProcDecl) : List String :=
  [indented 2 "pub trait Service \x7b"] ++
    procs.map (fun proc => indented 3
      ("fn " ++ proc.name ++ "(&mut self" ++ (if proc.arg = .void then ""
        else ", arg: " ++ proc.name ++ "::Arg") ++ ")" ++ (if proc.res = .void then ""
          else " -> " ++ proc.name ++ "::Res") ++ ";")) ++
    [indented 2 "\x7d"]

/-- The module of a version, with the modules of its procedures. -/
def versionLines (bundle : Bundle) (program : String) (version : VersionDecl) : List String :=
  moduleLines 1 version.name true
    ([idLine bundle 2 version.number,
      ""] ++ tableLines version.procs ++ [""] ++ serviceLines version.procs ++
      version.procs.flatMap fun proc =>
        "" :: procLines bundle (program ++ "." ++ version.name) proc)

/-- The module of a program, with the modules of its versions. -/
def programLines (bundle : Bundle) (decl : ProgramDecl) : List String :=
  moduleLines 0 decl.name true
    (idLine bundle 1 decl.number ::
      decl.versions.flatMap fun version => "" :: versionLines bundle decl.name version)

/-! ### Plans -/

/-- A procedure that was checked. -/
def plannedProc (bundle : Bundle) (service : String) (decl : ProcDecl) : ProcPlan :=
  ⟨decl, bundle.expression "u32" decl.id, decl.arg.signature, decl.res.signature,
    service ++ "." ++ decl.name⟩

/-- A version that was checked. -/
def plannedVersion (bundle : Bundle) (program : String) (decl : VersionDecl) : VersionPlan :=
  ⟨decl.name, bundle.expression "u32" decl.number,
    decl.procs.map (plannedProc bundle (program ++ "." ++ decl.name))⟩

theorem procPlan_eq {service decl plan} (h : procPlan bundle service decl = .ok plan) :
    plan = plannedProc bundle service decl := by
  rw [procPlan] at h
  obtain ⟨id, hid, h⟩ := bind_eq_ok.mp h
  obtain ⟨arg, harg, h⟩ := bind_eq_ok.mp h
  obtain ⟨res, hres, h⟩ := bind_eq_ok.mp h
  cases h
  rw [unsignedText_eq hid, signatureText_eq harg, signatureText_eq hres]
  rfl

theorem versionPlan_eq {program decl plan} (h : versionPlan bundle program decl = .ok plan) :
    plan = plannedVersion bundle program decl := by
  rw [versionPlan] at h
  obtain ⟨id, hid, h⟩ := bind_eq_ok.mp h
  obtain ⟨procs, hprocs, h⟩ := bind_eq_ok.mp h
  cases h
  rw [unsignedText_eq hid, eq_map_of_mapM procPlan_eq hprocs]
  rfl

/-! ### Printing -/

section

attribute [local simp] Stroke.print print_enter print_leaveWith print_lines leave superStrokes
  Output.wrote_andThen_andThen indented_zero String.append_assoc moduleLines scopeLine idLine

theorem opened_iff (proc : ProcDecl) :
    (isNamed proc.arg || isNamed proc.res) = decide (proc.typeNames ≠ []) := by
  obtain ⟨id, name, arg, res⟩ := proc
  cases arg <;> cases res <;> rfl

theorem prints_procStrokes (service : String) (proc : ProcDecl) :
    Prints 2 (procStrokes (plannedProc bundle service proc))
      (procLines bundle service proc) := by
  intro rest
  by_cases h : proc.typeNames = [] <;>
    simp [procStrokes, plannedProc, procLines, opened_iff, h]

theorem procEntry_eq (service : String) (proc : ProcDecl) :
    procEntry (plannedProc bundle service proc) =
      "Procedure \x7b program: super::ID, version: ID, id: " ++ proc.name ++ "::ID, name: " ++
        proc.name ++ "::NAME \x7d," := by
  have hentry : procEntry (plannedProc bundle service proc) =
      "Procedure \x7b program: super::ID, version: ID, id: " ++ proc.name ++ "::ID, " ++
        ("name: " ++ proc.name ++ "::NAME \x7d,") := rfl
  have hsplit : "::ID, name: " = "::ID, " ++ "name: " := by decide
  rw [hentry, hsplit]
  simp only [String.append_assoc]

theorem prints_tableStrokes (service : String) (procs : List ProcDecl) :
    Prints 2 (tableStrokes (procs.map (plannedProc bundle service))) (tableLines procs) := by
  intro rest
  by_cases h : procs = [] <;>
    simp [tableStrokes, tableLines, h, procEntry_eq, Function.comp_def]

/-- Parts that follow each other, each after a blank line. -/
theorem prints_spaced {α : Type} {depth : Nat} {items : List α} {strokes : α → List Stroke}
    {lines : α → List String} (h : ∀ item ∈ items, Prints depth (strokes item) (lines item)) :
    Prints depth (items.flatMap fun item => .blank :: strokes item)
      (items.flatMap fun item => "" :: lines item) := by
  refine prints_flatMap fun item hitem rest => ?_
  rw [cons_append, Stroke.print, h item hitem, Output.wrote_andThen_andThen]
  rfl

theorem prints_versionStrokes (program : String) (version : VersionDecl) :
    Prints 1 (versionStrokes (plannedVersion bundle program version))
      (versionLines bundle program version) := by
  have hprocs (service : String) :=
    prints_spaced fun proc (_ : proc ∈ version.procs) =>
      @prints_procStrokes bundle service proc
  have hmethod (service : String) (proc : ProcDecl) :
      methodText (plannedProc bundle service proc) = "fn " ++ proc.name ++ "(&mut self" ++
        (if proc.arg = .void then "" else ", arg: " ++ proc.name ++ "::Arg") ++ ")" ++
        (if proc.res = .void then "" else " -> " ++ proc.name ++ "::Res") ++ ";" := rfl
  intro rest
  simp [versionStrokes, plannedVersion, versionLines, prints_tableStrokes _ _ _, flatMap_map,
    hprocs _ _, serviceLines, hmethod, Function.comp_def]

/-- The module of a program that passes. -/
theorem prints_programStrokes {decl : ProgramDecl} {id : String}
    (hid : bundle.unsignedText decl.number decl.name = .ok id)
    (h : ∀ version ∈ decl.versions, ∃ plan, versionPlan bundle decl.name version = .ok plan) :
    Prints 0 (programStrokes bundle decl) (programLines bundle decl ++ [""]) := by
  have hversions : Prints 1 (decl.versions.flatMap fun version =>
        .blank :: checkedStrokes (versionPlan bundle decl.name version) versionStrokes)
      (decl.versions.flatMap fun version => "" :: versionLines bundle decl.name version) := by
    refine prints_spaced fun version hversion => ?_
    obtain ⟨plan, hplan⟩ := h version hversion
    rw [hplan, versionPlan_eq hplan]
    exact prints_versionStrokes decl.name version
  intro rest
  rw [programStrokes, hid, unsignedText_eq hid]
  simp [programLines, hversions _]

/-- The line of a constant that can be evaluated. -/
def constLine (bundle : Bundle) (decl : ConstDecl) : String :=
  "pub const " ++ decl.name ++ ": i64 = " ++ bundle.expression "i64" decl.value ++ ";"

theorem constText_eq {decl text} (h : constText bundle decl = .ok text) :
    text = constLine bundle decl := by
  obtain ⟨value, hvalue, rfl⟩ := map_eq_ok.mp h
  rw [valueText_eq hvalue]
  rfl

/-- The module of the constants, which passed their checks. -/
theorem prints_constStrokes {texts} (hconsts : bundle.consts ≠ [])
    (h : bundle.consts.mapM (constText bundle) = .ok texts) :
    Prints 0 (constStrokes bundle) (constLines bundle ++ [""]) := by
  intro rest
  rw [constStrokes, if_neg (mt List.isEmpty_iff.mp hconsts), h, eq_map_of_mapM constText_eq h]
  cases hopened : bundle.consts.any fun decl => isByName decl.value <;>
    simp [constLines, hopened, constLine, Function.comp_def]

end

/-! ### The emitted text -/

variable {options : Options}

/-- The module of the constants stands in the emitted text, if there are
any. -/
theorem text_of_consts (h : (render options bundle).2 = none) (hconsts : bundle.consts ≠ []) :
    ∃ before after,
    (render options bundle).1 = Doc.text (before ++ constLines bundle ++ after) := by
  obtain ⟨texts, htexts⟩ := (passes_of_render h).consts
  have hpart : [] ++ (constStrokes bundle ++ []) ∈ moduleParts options bundle := by
    simp [moduleParts]
  exact text_of_spaced (exists_text_of_prints h hpart level_nil
    (prints_constStrokes hconsts htexts))

/-- The modules of a program stand in the emitted text. -/
theorem text_of_program (h : (render options bundle).2 = none) {decl}
    (hdecl : decl ∈ bundle.programs) :
    ∃ before after, (render options bundle).1 =
      Doc.text (before ++ programLines bundle decl ++ after) := by
  have hpasses := passes_of_render h
  obtain ⟨id, hid⟩ := hpasses.programs decl hdecl
  have hpart : [] ++ (programStrokes bundle decl ++ []) ∈ moduleParts options bundle := by
    rw [nil_append, append_nil]
    exact mem_append_right _ (mem_map_of_mem hdecl)
  exact text_of_spaced (exists_text_of_prints h hpart level_nil
    (prints_programStrokes hid (hpasses.versions decl hdecl)))

/-- The items of a module stand in it. -/
theorem items_within (level : Nat) (name : String) (opened : Bool) (items : List String) :
    items <:+: moduleLines level name opened items :=
  ⟨_, _, rfl⟩

/-- What is emitted for an item stands in what is emitted for all. -/
theorem spaced_within {α : Type} {items : List α} {item : α} (hitem : item ∈ items)
    (lines : α → List String) :
    lines item <:+: items.flatMap fun item => "" :: lines item := by
  obtain ⟨front, back, rfl⟩ := append_of_mem hitem
  rw [flatMap_append, flatMap_cons]
  exact ⟨front.flatMap (fun item => "" :: lines item) ++ [""],
    back.flatMap fun item => "" :: lines item, by simp⟩

/-- The module of a version stands in that of its program. -/
theorem versionLines_within {decl : ProgramDecl} {version : VersionDecl}
    (hversion : version ∈ decl.versions) :
    versionLines bundle decl.name version <:+: programLines bundle decl := by
  refine List.IsInfix.trans ?_ (items_within 0 decl.name true _)
  exact (spaced_within hversion (versionLines bundle decl.name)).trans
    (suffix_cons ..).isInfix

/-- The module of a procedure stands in that of its version. -/
theorem procLines_within {program : String} {version : VersionDecl} {proc : ProcDecl}
    (hproc : proc ∈ version.procs) :
    procLines bundle (program ++ "." ++ version.name) proc <:+: versionLines bundle program
      version := by
  refine List.IsInfix.trans ?_ (items_within 1 version.name true _)
  exact (spaced_within hproc
    (procLines bundle (program ++ "." ++ version.name))).trans (suffix_append ..).isInfix

/-- What stands in lines of the emitted text stands in the text. -/
theorem text_of_within {part lines} (hpart : part <:+: lines) {text}
    (h : ∃ before after, text = Doc.text (before ++ lines ++ after)) :
    ∃ before after, text = Doc.text (before ++ part ++ after) := by
  obtain ⟨front, back, rfl⟩ := hpart
  obtain ⟨before, after, rfl⟩ := h
  exact ⟨before ++ front, back ++ after, by simp only [append_assoc]⟩

end Emit
end Xdr
