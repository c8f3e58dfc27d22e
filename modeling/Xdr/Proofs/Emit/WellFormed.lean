import Xdr.Proofs.Emit.Plans

/-!
# Well-formed modules

What holds of the module that is emitted for a source, whatever the source
and the options.  The counter of the emitter never goes below zero, and is
at zero between the parts of the module; the brackets of the text are nested
and balanced.  The items of the runtime that the text uses are imported in
front of it, and no name of the source is one of them.

## Main Statements

* `Emit.wellNested_of_parse` — the counter and the brackets of an emitted
  module
* `Emit.imports_cover_of_parse` — the imports of an emitted module

## Design Notes

A module may fail to be emitted, and its text ends there.  Then brackets are
still open, but none was closed that was not open: closing those that are
open makes the text balanced.
-/

namespace Xdr.Emit

open List Stroke

variable {definitions : List String} {defines : List Define} {symbols : Symbols}
    {name : String} {bytes : List UInt8} {parsed : Parsed} {bundle : Bundle}

/-! ### Nesting -/

/-- **Emitted modules are well nested.**  The counter for the depth is never
taken below zero: not at the end of the strokes of the emitter, nor at any
point before it.  It is at zero again after the head, the imports, the
constants and each declaration, and so at the end.  Each line that is
written stands at the depth that the counter has then.  The brackets in the
text of a module that does not fail are nested and balanced, and if it
fails, closing those that are open makes them so. -/
theorem wellNested_of_parse (hdefines : Define.parseAll definitions = .ok defines)
    (hparse : Decl.parse symbols (.ofBytes name bytes) = .ok parsed)
    (hbundle : Bundle.ofDecls parsed.decls defines = bundle) (options : Options) :
    (render options bundle).1 = Doc.text (lines options bundle) ∧
    (∀ front back, moduleStrokes options bundle = front ++ back →
      ∃ depth, Stroke.counter 0 front = some depth) ∧
    (∀ front back, moduleParts options bundle = front ++ back →
      Stroke.counter 0 front.flatten = some 0) ∧
    (∀ front text back, moduleStrokes options bundle = front ++ .line text :: back →
      (Stroke.print 0 front).failure = none →
      ∃ depth before after, Stroke.counter 0 front = some depth ∧
        before = (Stroke.print 0 front).content ∧
        lines options bundle = before ++ Doc.indented depth text :: after) ∧
    (∃ missing : List Bracket,
      Bracket.Nested ((render options bundle).1.toList ++ missing.map Bracket.closing) ∧
      ((render options bundle).2 = none → missing = [])) := by
  have hinert : bundle.Inert := hbundle ▸ Bundle.inert_of_parse hdefines hparse
  have hlevel : Level (moduleStrokes options bundle) :=
    level_flatten fun part hpart => level_of_mem_moduleParts hpart
  have hpoint (front back : List Stroke) (hsplit : moduleStrokes options bundle =
    front ++ back) : ∃ depth, Stroke.counter 0 front = some depth :=
    Stroke.exists_counter_of_append (hsplit ▸ hlevel.counter_eq 0)
  refine ⟨?_, hpoint, fun front back hparts => ?_, fun front text back hsplit hnone => ?_, ?_⟩
  · rw [render, lines]
  · refine (Stroke.level_flatten fun part hpart => ?_).counter_eq 0
    exact level_of_mem_moduleParts (hparts ▸ mem_append_left back hpart)
  · obtain ⟨depth, hdepth⟩ := hpoint front _ hsplit
    refine ⟨depth, _, (Stroke.print depth back).content, hdepth, rfl, ?_⟩
    rw [lines, hsplit, Stroke.print_append_of_counter hdepth, Output.andThen, hnone]
    rfl
  · obtain ⟨-, stack, hnest, hend⟩ := (runs_moduleStrokes hinert options).writes 0
    exact ⟨stack, Bracket.nested_append_closers hnest, hend⟩

/-! ### Imports -/

/-- The line imports the item from the runtime, alone or with others. -/
def Lists (line item : String) : Prop :=
  line = "use ::xdr_runtime::" ++ item ++ ";" ∨
    ∃ items,
    item ∈ items ∧ line = "use ::xdr_runtime::\x7b" ++ ", ".intercalate items ++ "\x7d;"

theorem exists_lists_of_mem {items item} (h : item ∈ items) :
    ∃ line ∈ importLines items, Lists line item := by
  rcases items with _ | ⟨first, _ | ⟨next, others⟩⟩
  · cases h
  · obtain rfl := mem_singleton.mp h
    exact ⟨_, mem_cons_self, .inl rfl⟩
  · exact ⟨_, mem_cons_self, .inr ⟨_, h, rfl⟩⟩

/-- An item of the runtime is a use of itself. -/
theorem notMem_runtimeItems_of_sound {name} (h : Sound [] name) : name ∉ runtimeItems := by
  intro hmem
  have huses : Uses name.toList name := ⟨[], ⟨[], by simp, by simp, by simp⟩, by simp⟩
  exact not_mem_nil (h.covered name hmem huses)

/-- **Imports cover uses.**  Behind its head and its imports, the text of a
module uses no item of the runtime without a path in front of it, unless a
line of the imports lists the item; and no name in the declarations is such
an item. -/
theorem imports_cover_of_parse (hdefines : Define.parseAll definitions = .ok defines)
    (hparse : Decl.parse symbols (.ofBytes name bytes) = .ok parsed)
    (hbundle : Bundle.ofDecls parsed.decls defines = bundle) (options : Options) :
    (render options bundle).1 =
      Doc.text (headLines options.inner ++ importLines (imports options bundle)) ++
      Doc.text (Stroke.print 0 (bodyStrokes options bundle)).content ∧
    (∀ item ∈ runtimeItems,
      Uses (Doc.text (Stroke.print 0 (bodyStrokes options bundle)).content).toList item →
      ∃ line ∈ importLines (imports options bundle), Lists line item) ∧
    ∀ kind, ∀ decl ∈ bundle.group kind, ∀ word, .word word ∈ decl.lexemes →
      word ∉ runtimeItems := by
  have hinert : bundle.Inert := hbundle ▸ Bundle.inert_of_parse hdefines hparse
  refine ⟨?_, fun item hitem huses => ?_, fun kind decl hdecl word hword => ?_⟩
  · rw [← Doc.text_append, ← lines_eq, lines, render]
  · have hcovered := ((runs_bodyStrokes hinert options).writes 0).covered
    exact exists_lists_of_mem (hcovered item hitem huses)
  · exact notMem_runtimeItems_of_sound (hinert kind decl hdecl _ hword)

/-! ### A source with names of the runtime -/

/-- A union that refers to itself, with names that are items of the runtime.
-/
def clashingText : String :=
  "union Map switch (int Value) \x7b case 1: Map *Xdr; default: void; \x7d;"

/-- The union with its names escaped. -/
def clashing : Bundle :=
  ⟨[], [], [], [⟨"Map_", ⟨.int, "Value_"⟩,
    [⟨.value (.literal "1"), some (.named "Map_"), some "Xdr_", .pointer⟩,
      ⟨.otherwise, some .void, none, .plain⟩]⟩], [], []⟩

theorem parse_clashingText :
    ∃ parsed, Decl.parse .initial (Source.ofText "map.x" clashingText) = .ok parsed ∧
      Bundle.ofDecls parsed.decls [] = clashing := by
  have h :
    ((Decl.parse .initial (Source.ofText "map.x" clashingText)).toOption.map fun parsed =>
      Bundle.ofDecls parsed.decls []) = some clashing := by
    decide +kernel
  generalize Decl.parse _ _ = result at h ⊢
  cases result with
  | error failure => cases h
  | ok parsed => exact ⟨parsed, rfl, Option.some.inj h⟩

/-- The module of the union does not fail, so its brackets are balanced. -/
theorem wellNested_of_parse_clashing :
    Define.parseAll [] = .ok [] ∧
    (∃ parsed, Decl.parse .initial (Source.ofText "map.x" clashingText) = .ok parsed ∧
      Bundle.ofDecls parsed.decls [] = clashing) ∧
    (render .standard clashing).2 = none ∧
    Stroke.counter 0 (moduleStrokes .standard clashing) = some 0 ∧
    Bracket.Nested (render .standard clashing).1.toList := by
  have hdefines : Define.parseAll [] = .ok [] := rfl
  have hnone : (render .standard clashing).2 = none := by decide +kernel
  obtain ⟨parsed, hparse, hbundle⟩ := parse_clashingText
  obtain ⟨-, -, hlevel, -, missing, hnested, hmissing⟩ :=
    wellNested_of_parse hdefines hparse hbundle .standard
  rw [hmissing hnone, map_nil, append_nil] at hnested
  exact ⟨hdefines, ⟨parsed, hparse, hbundle⟩, hnone,
    hlevel (moduleParts .standard clashing) [] (append_nil _).symm, hnested⟩

/-- Whatever the module of the union uses is imported. -/
theorem imports_cover_of_parse_clashing :
    Define.parseAll [] = .ok [] ∧
    (∃ parsed, Decl.parse .initial (Source.ofText "map.x" clashingText) = .ok parsed ∧
      Bundle.ofDecls parsed.decls [] = clashing) ∧
    ∀ options : Options, ∀ item ∈ runtimeItems,
      Uses (Doc.text (Stroke.print 0 (bodyStrokes options clashing)).content).toList item →
      ∃ line ∈ importLines (imports options clashing), Lists line item := by
  have hdefines : Define.parseAll [] = .ok [] := rfl
  obtain ⟨parsed, hparse, hbundle⟩ := parse_clashingText
  exact ⟨hdefines, ⟨parsed, hparse, hbundle⟩, fun options =>
    (imports_cover_of_parse hdefines hparse hbundle options).2.1⟩

end Xdr.Emit
