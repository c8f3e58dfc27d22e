import Xdr.Proofs.Emit.Programs

/-!
# What emitted modules can see

A module of emitted code sees the names of the module around it only if it
takes them over.  The module of the constants does so if one of them is
given by a name, and the module of a procedure if its argument or result is
of a declared type.  The number of a procedure does not count, although it
can be given by a name, too.

## Main Statements

* `Emit.scopeLine_mem_moduleLines` — a module has the line if and only if it
  is opened
* `Emit.sees_iff_of_render` — the module of a procedure sees what it
  mentions, unless only its number mentions it
-/

namespace Xdr

open List

/-- The item of the emitted module that a reference goes through: the
constants or an enumeration. -/
def Reference.root? : Reference → Option String
  | .truth _ => none
  | .constant _ => some "constant"
  | .member enum _ => some enum

namespace Bundle

/-- The item of the emitted module that an integer mentions. -/
def root? (bundle : Bundle) (value : IntExpr) : Option String :=
  (bundle.referent? value).bind Reference.root?

/-- The items of the emitted module that the module of a procedure mentions,
by its number and in its signature. -/
def mentioned (bundle : Bundle) (proc : ProcDecl) : List String :=
  (bundle.root? proc.id).toList ++ proc.typeNames

theorem mentioned_eq_nil {bundle : Bundle} {proc} :
    bundle.mentioned proc = [] ↔ bundle.root? proc.id = none ∧ proc.typeNames = [] := by
  rw [mentioned, append_eq_nil_iff, Option.toList_eq_nil_iff]

end Bundle

namespace Doc

/-- The first character of a line after its indentation. -/
def lead? (line : String) : Option Char :=
  (line.toList.dropWhile (· == ' ')).head?

theorem lead?_indented (level : Nat) (text : String) :
    lead? (indented level text) = lead? text := by
  have hblank : ∀ c ∈ replicate (4 * level) ' ', (c == ' ') = true := by simp
  rw [lead?, indented, indentation, String.toList_append, String.toList_ofList,
    dropWhile_append_of_pos hblank, lead?]

theorem lead?_append {head c} (h : lead? head = some c) (rest : String) :
    lead? (head ++ rest) = some c := by
  rw [lead?] at h ⊢
  rw [String.toList_append, dropWhile_append, if_neg, head?_append, h]
  · rfl
  · intro hempty
    rw [isEmpty_iff.mp hempty] at h
    cases h

end Doc

namespace Emit

open Doc

variable {bundle : Bundle}

theorem lead?_scopeLine (level : Nat) : lead? (scopeLine level) = some 'u' := by
  rw [scopeLine, lead?_indented]
  decide

/-- A module takes over the names around it if and only if it is opened: no
other line looks like that. -/
theorem scopeLine_mem_moduleLines {level name opened items}
    (hitems : ∀ item ∈ items, lead? item = some 'p') :
    scopeLine (level + 1) ∈ moduleLines level name opened items ↔ opened = true := by
  have hother : ∀ {line : String}, lead? line ≠ some 'u' → scopeLine (level + 1) ≠ line := by
    rintro line hline rfl
    exact hline (lead?_scopeLine _)
  have hheader : lead? (indented level ("pub mod " ++ name ++ " \x7b")) = some 'p' := by
    rw [lead?_indented]
    exact lead?_append (lead?_append (by decide) _) _
  have hfooter : lead? (indented level "\x7d") = some '\x7d' := by
    rw [lead?_indented]
    decide
  rw [moduleLines, mem_append, mem_append, mem_append, mem_singleton, mem_singleton]
  constructor
  · rintro (((h | h) | h) | h)
    · exact absurd h (hother (by rw [hheader]; decide))
    · cases opened with
      | true => rfl
      | false => cases h
    · exact absurd rfl (hother (by rw [hitems _ h]; decide))
    · exact absurd h (hother (by rw [hfooter]; decide))
  · rintro rfl
    exact .inl (.inl (.inr (.head _)))

/-- Items begin with a word that makes them public. -/
theorem lead?_item {head} (h : lead? head = some 'p') (level : Nat) (rest : String) :
    lead? (indented level (head ++ rest)) = some 'p' := by
  rw [lead?_indented]
  exact lead?_append h rest

theorem scopeLine_mem_constLines :
    scopeLine 1 ∈ constLines bundle ↔
    ∃ decl ∈ bundle.consts, ∃ name, decl.value = .name name := by
  rw [constLines, scopeLine_mem_moduleLines, any_eq_true]
  · refine exists_congr fun decl => and_congr_right fun _ => ?_
    cases decl.value with
    | literal digits => simp [isByName]
    | name name => simp [isByName]
  · intro item hitem
    obtain ⟨decl, -, rfl⟩ := mem_map.mp hitem
    simp only [String.append_assoc]
    exact lead?_item (by decide) _ _

theorem scopeLine_mem_procLines {service proc} :
    scopeLine 3 ∈ procLines bundle service proc ↔ proc.typeNames ≠ [] := by
  rw [procLines, scopeLine_mem_moduleLines, decide_eq_true_iff]
  simp only [idLine, forall_mem_cons, String.append_assoc]
  exact ⟨lead?_item (by decide) _ _, lead?_item (by decide) _ _, lead?_item (by decide) _ _,
    lead?_item (by decide) _ _, fun item hitem => absurd hitem not_mem_nil⟩

/-- **What emitted modules can see.**  In the emitted text of a bundle
stand, line by line, the module of its constants and the modules of each
program with those of its versions and procedures.  The constants take over
the names around them if and only if one of them is given by a name, and a
procedure if and only if its signature has a declared type.  So the module
of a procedure takes them over whenever it mentions one if and only if its
signature has a declared type or its number mentions none. -/
theorem sees_iff_of_render {options : Options} (h : (render options bundle).2 = none) :
    (bundle.consts ≠ [] → ∃ before after,
      (render options bundle).1 = Doc.text (before ++ constLines bundle ++ after)) ∧
    (scopeLine 1 ∈ constLines bundle ↔
      ∃ decl ∈ bundle.consts, ∃ name, decl.value = .name name) ∧
    ∀ decl ∈ bundle.programs,
      (∃ before after,
        (render options bundle).1 = Doc.text (before ++ programLines bundle decl ++ after)) ∧
      ∀ version ∈ decl.versions, ∀ proc ∈ version.procs,
        procLines bundle (decl.name ++ "." ++ version.name) proc <:+:
          programLines bundle decl ∧
        (scopeLine 3 ∈ procLines bundle (decl.name ++ "." ++ version.name) proc ↔
          proc.typeNames ≠ []) ∧
        ((bundle.mentioned proc ≠ [] →
          scopeLine 3 ∈ procLines bundle (decl.name ++ "." ++ version.name) proc) ↔
          proc.typeNames ≠ [] ∨ bundle.root? proc.id = none) := by
  refine ⟨text_of_consts h, scopeLine_mem_constLines,
    fun decl hdecl => ⟨text_of_program h hdecl, ?_⟩⟩
  intro version hversion proc hproc
  refine ⟨(procLines_within hproc).trans (versionLines_within hversion),
    scopeLine_mem_procLines, ?_⟩
  rw [scopeLine_mem_procLines, ne_eq, ne_eq, Bundle.mentioned_eq_nil]
  tauto

/-- A procedure with a constant as its number and nothing in its signature. -/
def numberedByName : Bundle where
  consts := [⟨"N", .literal "1"⟩]
  enums := []
  structs := []
  unions := []
  typedefs := []
  programs := [⟨"P", .literal "1", [⟨"V", .literal "1", [⟨.name "N", "f", .void, .void⟩]⟩]⟩]

/-- Its module mentions the constants and does not see them. -/
theorem sees_iff_of_render_numberedByName :
    (render .standard numberedByName).2 = none ∧
      (∃ before after, (render .standard numberedByName).1 = Doc.text (before ++
        ["        pub mod f \x7b",
          "            pub const ID: u32 = constant::N as u32;",
          "            pub const NAME: &str = \"P.V.f\";",
          "            pub type Arg = ();",
          "            pub type Res = ();",
          "        \x7d"] ++ after)) ∧
      numberedByName.mentioned ⟨.name "N", "f", .void, .void⟩ = ["constant"] ∧
      scopeLine 3 ∉ procLines numberedByName "P.V" ⟨.name "N", "f", .void, .void⟩ := by
  have hrender : (render .standard numberedByName).2 = none := by decide
  obtain ⟨-, -, hprograms⟩ := sees_iff_of_render hrender
  obtain ⟨htext, hversions⟩ := hprograms _ (.head _)
  obtain ⟨hwithin, hscope, -⟩ := hversions _ (.head _) _ (.head _)
  refine ⟨hrender, ?_, by decide, fun hmem => hscope.mp hmem rfl⟩
  have hlines : procLines numberedByName "P.V" ⟨.name "N", "f", .void, .void⟩ =
      ["        pub mod f \x7b",
        "            pub const ID: u32 = constant::N as u32;",
        "            pub const NAME: &str = \"P.V.f\";",
        "            pub type Arg = ();",
        "            pub type Res = ();",
        "        \x7d"] := by decide
  rw [← hlines]
  exact text_of_within hwithin htext

end Emit
end Xdr
