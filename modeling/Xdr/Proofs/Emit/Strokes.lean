import Xdr.Emit.Module
import Xdr.Proofs.Results

/-!
# Strokes one after the other

Facts about the strokes of an emitter that are put together from those of
its parts: at which depth they leave off, what they print, and whether they
can fail.

## Main Definitions

* `Stroke.counter` — the depth after some strokes
* `Stroke.Level` — strokes that leave the depth as they found it, whatever
  comes behind them
* `Stroke.Prints` — level strokes that print some lines, whatever comes
  behind them
* `Stroke.Complete` — level strokes, none of which fails

## Main Statements

* `Stroke.Level.print_append` — level strokes and what comes behind them
  print one after the other
* `Emit.complete_enumStrokes`, `Emit.complete_structStrokes`,
  `Emit.complete_aliasStrokes`, `Emit.complete_unionStrokes`,
  `Emit.complete_versionStrokes` — declarations that were checked
* `Emit.level_of_mem_moduleParts` — the depth after a part of a module is
  the one before it

## Design Notes

Nothing about a stroke says which stroke it belongs to. So every fact is
stated of strokes with anything behind them, and the strokes of an emitter
are gone through from the first to the last, with the depth reached as the
only thing to remember.
-/

namespace Xdr

open List Output

namespace Stroke

variable {front back strokes : List Stroke} {depth next : Nat}

/-! ### The counter -/

/-- The depth after some strokes, unless it would have had to go below zero.
-/
def counter (depth : Nat) : List Stroke → Option Nat
  | [] => some depth
  | .blank :: strokes | .line _ :: strokes | .fail _ :: strokes => counter depth strokes
  | .deeper :: strokes => counter (depth + 1) strokes
  | .shallower :: strokes => if depth = 0 then none else counter (depth - 1) strokes

/-- Strokes are counted one part after the other. -/
theorem counter_append (depth : Nat) (front back : List Stroke) :
    counter depth (front ++ back) = (counter depth front).bind fun next =>
      counter next back := by
  induction front generalizing depth with
  | nil => rfl
  | cons stroke front ih =>
    cases stroke with
    | blank | line _ | deeper | fail _ => exact ih _
    | shallower =>
      rw [cons_append, counter, counter]
      split
      · rfl
      · exact ih _

/-- A counter that gets to the end of some strokes got to every point before
it. -/
theorem exists_counter_of_append {last} (h : counter depth (front ++ back) = some last) :
    ∃ next, counter depth front = some next := by
  rw [counter_append] at h
  obtain ⟨next, hnext, -⟩ := Option.bind_eq_some_iff.mp h
  exact ⟨next, hnext⟩

/-- What is behind some strokes is printed at the depth that the counter
gives, unless they fail. -/
theorem print_append_of_counter (h : counter depth front = some next) (back : List Stroke) :
    print depth (front ++ back) = (print depth front).andThen (print next back) := by
  induction front generalizing depth with
  | nil =>
    cases h
    rfl
  | cons stroke front ih =>
    cases stroke with
    | blank | line _ => rw [cons_append, print, print, andThen_assoc, ih h]
    | deeper => exact ih h
    | shallower =>
      rw [counter] at h
      split at h
      · cases h
      · exact ih h
    | fail _ => rfl

/-- The strokes leave the depth as they found it, and never take it below
that. -/
def Level (strokes : List Stroke) : Prop :=
  ∀ depth rest, counter depth (strokes ++ rest) = counter depth rest

theorem level_nil : Level [] := fun _ _ => rfl

theorem Level.append (hfront : Level front) (hback : Level back) : Level (front ++ back) := by
  intro depth rest
  rw [append_assoc, hfront, hback]

/-- Level parts make level strokes. -/
theorem level_flatten {parts : List (List Stroke)} (h : ∀ part ∈ parts, Level part) :
    Level parts.flatten := by
  induction parts with
  | nil => exact level_nil
  | cons part parts ih =>
    obtain ⟨hpart, hparts⟩ := forall_mem_cons.mp h
    exact hpart.append (ih hparts)

theorem level_flatMap {α : Type} {items : List α} {f : α → List Stroke}
    (h : ∀ item, Level (f item)) : Level (items.flatMap f) :=
  level_flatten (forall_mem_map.mpr fun item _ => h item)

theorem level_lines {α : Type} (items : List α) (text : α → String) :
    Level (items.map fun item => .line (text item)) := by
  rw [map_eq_flatMap]
  exact level_flatMap fun item _ _ => rfl

/-- The counter comes back to where it started. -/
theorem Level.counter_eq (h : Level strokes) (depth : Nat) :
    counter depth strokes = some depth := by
  simpa [counter] using h depth []

/-- **Level strokes and what comes behind them** print one after the other. -/
theorem Level.print_append (h : Level front) (depth : Nat) (back : List Stroke) :
    print depth (front ++ back) = (print depth front).andThen (print depth back) :=
  print_append_of_counter (h.counter_eq depth) back

theorem counter_enter (depth : Nat) (header : String) (rest : List Stroke) :
    counter depth (enter header ++ rest) = counter (depth + 1) rest := rfl

theorem counter_leaveWith (depth : Nat) (closers : String) (rest : List Stroke) :
    counter depth (leaveWith closers ++ rest) =
      if depth = 0 then none else counter (depth - 1) rest := rfl

theorem print_enter (depth : Nat) (header : String) (rest : List Stroke) :
    print depth (enter header ++ rest) =
      (wrote [Doc.indented depth (header ++ " \x7b")]).andThen (print (depth + 1) rest) :=
  rfl

theorem print_leaveWith (depth : Nat) (closers : String) (rest : List Stroke) :
    print depth (leaveWith closers ++ rest) =
      (wrote [Doc.indented (depth - 1) closers]).andThen (print (depth - 1) rest) :=
  rfl

/-- The strokes print some lines and come back to their depth, whatever
comes behind them. -/
def Prints (depth : Nat) (strokes : List Stroke) (lines : List String) : Prop :=
  ∀ rest, print depth (strokes ++ rest) = (wrote lines).andThen (print depth rest)

/-- Items that print their lines print them in their order. -/
theorem prints_flatMap {α : Type} {items : List α} {strokes : α → List Stroke}
    {lines : α → List String} (h : ∀ item ∈ items, Prints depth (strokes item) (lines item)) :
    Prints depth (items.flatMap strokes) (items.flatMap lines) := by
  induction items with
  | nil => exact fun _ => rfl
  | cons item items ih =>
    obtain ⟨hitem, hitems⟩ := forall_mem_cons.mp h
    intro rest
    rw [flatMap_cons, append_assoc, hitem, ih hitems, wrote_andThen_andThen]
    rfl

/-- Lines print as they are, indented. -/
theorem print_lines {α : Type} (depth : Nat) (items : List α) (text : α → String)
    (rest : List Stroke) :
    print depth ((items.map fun item => .line (text item)) ++ rest) =
      (wrote (items.map fun item => Doc.indented depth (text item))).andThen
        (print depth rest) := by
  rw [map_eq_flatMap, map_eq_flatMap]
  exact prints_flatMap (fun _ _ _ => rfl) rest

/-! ### Failures -/

/-- Level strokes, none of which fails. -/
structure Complete (strokes : List Stroke) : Prop where
  level : Level strokes
  whole : ∀ error, .fail error ∉ strokes

theorem complete_nil : Complete [] :=
  ⟨level_nil, fun _ => not_mem_nil⟩

theorem complete_line (text : String) : Complete [.line text] :=
  ⟨fun _ _ => rfl, by simp⟩

theorem Complete.append (hfront : Complete front) (hback : Complete back) :
    Complete (front ++ back) :=
  ⟨hfront.level.append hback.level, fun error hmem =>
    (mem_append.mp hmem).elim (hfront.whole error) (hback.whole error)⟩

theorem Complete.onlyIf (h : Complete strokes) (wanted : Bool) :
    Complete (if wanted then strokes else []) := by
  cases wanted with
  | false => exact complete_nil
  | true => exact h

/-- The errors of the strokes that fail. -/
def failures (strokes : List Stroke) : List EmitError :=
  strokes.filterMap fun
    | .fail error => some error
    | _ => none

theorem failures_append (front back : List Stroke) :
    failures (front ++ back) = failures front ++ failures back :=
  filterMap_append

/-- Printing stops at the first stroke that fails, whatever the depth. -/
theorem failure_print (depth : Nat) (strokes : List Stroke) :
    (print depth strokes).failure = (failures strokes).head? := by
  induction strokes generalizing depth with
  | nil => rfl
  | cons stroke strokes ih =>
    cases stroke with
    | blank | line _ => rw [print, failure_andThen_eq, ih]; rfl
    | deeper | shallower => exact ih _
    | fail error => rfl

/-- Complete strokes have no failures. -/
theorem Complete.failures_eq (h : Complete strokes) : failures strokes = [] := by
  rw [failures, filterMap_eq_nil_iff]
  intro stroke hstroke
  cases stroke with
  | fail error => exact absurd hstroke (h.whole error)
  | blank | line _ | deeper | shallower => rfl

/-- Complete strokes are printed to their end. -/
theorem Complete.failure (h : Complete strokes) (depth : Nat) :
    (print depth strokes).failure = none := by
  rw [failure_print, h.failures_eq, head?_nil]

end Stroke

namespace Emit

open Stroke

section

attribute [local simp] counter counter_enter counter_leaveWith enter leave
  leaveWith superStrokes
  enterWire enterPack enterUnpack enterStructural enterToStructural enterFromStructural

@[local simp] theorem counter_lines {α : Type} (depth : Nat) (items : List α)
    (text : α → String) (rest : List Stroke) :
    counter depth ((items.map fun item => .line (text item)) ++ rest) = counter depth rest :=
  level_lines items text depth rest

@[simp] theorem checkedStrokes_ok {α : Type} (value : α) (strokes : α → List Stroke) :
    checkedStrokes (.ok value) strokes = strokes value := rfl

/-- A plan that is refused leaves the depth alone too. -/
theorem level_checkedStrokes {α : Type} {plan : Except EmitError α}
    {strokes : α → List Stroke}
    (h : ∀ value, Level (strokes value)) : Level (checkedStrokes plan strokes) := by
  cases plan with
  | ok value => exact h value
  | error error => exact fun _ _ => rfl

theorem complete_enumTypeStrokes (plan : EnumPlan) : Complete (enumTypeStrokes plan) := by
  by_cases h : plan.members = [] <;> constructor <;> simp [Level, enumTypeStrokes, h]

theorem complete_enumImplStrokes (plan : EnumPlan) : Complete (enumImplStrokes plan) := by
  constructor <;> simp [Level, enumImplStrokes]

theorem complete_enumNumberStrokes (plan : EnumPlan) : Complete (enumNumberStrokes plan) := by
  constructor <;> simp [Level, enumNumberStrokes]

theorem complete_enumWireStrokes (plan : EnumPlan) : Complete (enumWireStrokes plan) := by
  constructor <;> simp [Level, enumWireStrokes, fromValueStrokes]

theorem complete_enumStructuralStrokes (plan : EnumPlan) :
    Complete (enumStructuralStrokes plan) := by
  constructor <;> simp [Level, enumStructuralStrokes, fromValueStrokes]

/-- **Enumerations.** -/
theorem complete_enumStrokes (structural : Bool) (plan : EnumPlan) :
    Complete (enumStrokes structural plan) :=
  (complete_enumTypeStrokes plan).append <| (complete_enumImplStrokes plan).append <|
    (complete_enumNumberStrokes plan).append <| (complete_enumWireStrokes plan).append <|
    ((complete_enumStructuralStrokes plan).onlyIf structural).append complete_nil

theorem complete_structTypeStrokes (plan : StructPlan) :
    Complete (structTypeStrokes plan) := by
  constructor <;> simp [Level, structTypeStrokes]

theorem complete_structWireStrokes (plan : StructPlan) :
    Complete (structWireStrokes plan) := by
  constructor <;> simp [Level, structWireStrokes]

theorem complete_structStructuralStrokes (plan : StructPlan) :
    Complete (structStructuralStrokes plan) := by
  constructor <;> simp [Level, structStructuralStrokes]

/-- **Structures.** -/
theorem complete_structStrokes (structural : Bool) (plan : StructPlan) :
    Complete (structStrokes structural plan) :=
  (complete_structTypeStrokes plan).append <| (complete_structWireStrokes plan).append <|
    ((complete_structStructuralStrokes plan).onlyIf structural).append complete_nil

theorem complete_aliasTypeStrokes (plan : AliasPlan) : Complete (aliasTypeStrokes plan) := by
  constructor <;> simp [Level, aliasTypeStrokes]

theorem complete_aliasWireStrokes (plan : AliasPlan) : Complete (aliasWireStrokes plan) := by
  constructor <;> simp [Level, aliasWireStrokes]

theorem complete_aliasStructuralStrokes (plan : AliasPlan) :
    Complete (aliasStructuralStrokes plan) := by
  constructor <;> simp [Level, aliasStructuralStrokes]

/-- **Type definitions.** -/
theorem complete_aliasStrokes (structural : Bool) (plan : AliasPlan) :
    Complete (aliasStrokes structural plan) :=
  (complete_aliasTypeStrokes plan).append <| (complete_aliasWireStrokes plan).append <|
    ((complete_aliasStructuralStrokes plan).onlyIf structural).append complete_nil

theorem complete_selectStrokes (plan : UnionPlan) : Complete (selectStrokes plan) := by
  have htests (keyword : String) (branches : List (String × Option String)) :
      Complete (branchStrokes keyword branches) := by
    induction branches generalizing keyword with
    | nil => exact ⟨level_nil, by simp [branchStrokes]⟩
    | cons branch branches ih =>
      exact ⟨fun depth rest => (ih _).level depth rest, by simp [branchStrokes, (ih _).whole]⟩
  by_cases h : plan.branches = [] <;> constructor <;>
    simp [Level, selectStrokes, h, (htests _ _).level _ _, (htests _ _).whole]

/-- A choice among the arms, if every branch is complete. -/
theorem complete_choiceStrokes (plan : UnionPlan) (subject : String) {branch}
    (h : ∀ arm, Complete (branch arm)) : Complete (choiceStrokes plan subject branch) := by
  have harms : Level (plan.arms.flatMap branch) := level_flatMap fun arm => (h arm).level
  by_cases hnone : plan.arms = [] <;> constructor <;>
    simp [Level, choiceStrokes, hnone, harms _ _, (h _).whole]

theorem complete_packStrokes (plan : UnionPlan) (arm : Arm) :
    Complete (packStrokes plan arm) := by
  constructor <;> simp [Level, packStrokes]

theorem complete_insertStrokes (arm : Arm) : Complete (insertStrokes arm) := by
  constructor <;> simp [Level, insertStrokes]

theorem complete_unionTypeStrokes (plan : UnionPlan) : Complete (unionTypeStrokes plan) := by
  constructor <;> simp [Level, unionTypeStrokes]

theorem complete_armStrokes (plan : UnionPlan) : Complete (armStrokes plan) := by
  have hselect := complete_selectStrokes plan
  constructor <;> simp [Level, armStrokes, hselect.level _ _, hselect.whole]

theorem complete_unionWireStrokes (plan : UnionPlan) : Complete (unionWireStrokes plan) := by
  have hpack := complete_choiceStrokes plan "self" (complete_packStrokes plan)
  have hunpack := complete_choiceStrokes plan "result" fun arm =>
    complete_line (unpackText arm)
  constructor <;>
    simp [Level, unionWireStrokes, hpack.level _ _, hunpack.level _ _, hpack.whole,
      hunpack.whole]

theorem complete_unionStructuralStrokes (plan : UnionPlan) :
    Complete (unionStructuralStrokes plan) := by
  have hinsert := complete_choiceStrokes plan "self" complete_insertStrokes
  have hread := complete_choiceStrokes plan "result" fun arm => complete_line (readText arm)
  by_cases h : plan.arms = [] <;> constructor <;>
    simp [Level, unionStructuralStrokes, h, hinsert.level _ _, hread.level _ _, hinsert.whole,
      hread.whole]

/-- **Unions.** -/
theorem complete_unionStrokes (structural : Bool) (plan : UnionPlan) :
    Complete (unionStrokes structural plan) :=
  (complete_unionTypeStrokes plan).append <| (complete_armStrokes plan).append <|
    (complete_unionWireStrokes plan).append <|
    ((complete_unionStructuralStrokes plan).onlyIf structural).append complete_nil

theorem complete_procStrokes (proc : ProcPlan) : Complete (procStrokes proc) := by
  cases h : isNamed proc.decl.arg || isNamed proc.decl.res <;> constructor <;>
    simp [Level, procStrokes, h]

/-- **Versions.** -/
theorem complete_versionStrokes (plan : VersionPlan) : Complete (versionStrokes plan) := by
  have hprocs : Level (plan.procs.flatMap fun proc => .blank :: procStrokes proc) :=
    level_flatMap fun proc => (complete_procStrokes proc).level
  by_cases h : plan.procs = [] <;> constructor <;>
    simp [Level, versionStrokes, tableStrokes, h, hprocs _ _, (complete_procStrokes _).whole]

theorem level_versions (bundle : Bundle) (decl : ProgramDecl) :
    Level (decl.versions.flatMap fun version =>
      .blank :: checkedStrokes (versionPlan bundle decl.name version) versionStrokes) :=
  level_flatMap fun _ => level_checkedStrokes fun plan => (complete_versionStrokes plan).level

/-- **Programs.** -/
theorem level_programStrokes (bundle : Bundle) (decl : ProgramDecl) :
    Level (programStrokes bundle decl) :=
  level_checkedStrokes fun id => by simp [Level, level_versions bundle decl _ _]

theorem complete_headStrokes (inner : Bool) : Complete (headStrokes inner) := by
  cases inner <;> constructor <;> simp [Level, headStrokes]

theorem complete_importStrokes (items : List String) : Complete (importStrokes items) := by
  rcases items with _ | ⟨first, _ | ⟨next, others⟩⟩ <;> constructor <;>
    simp [Level, importStrokes]

/-- The module of constants, given their lines. -/
theorem complete_constModule (opened : Bool) (texts : List String) :
    Complete (flatten [enter "pub mod constant", if opened then superStrokes else [],
      texts.map .line, leave, [.blank]]) := by
  have hlines : Level (texts.map .line) := level_lines texts id
  cases opened <;> constructor <;> simp [Level, hlines _ _]

theorem level_constStrokes (bundle : Bundle) : Level (constStrokes bundle) := by
  rw [constStrokes]
  split
  · exact level_nil
  · exact level_checkedStrokes fun texts => (complete_constModule _ texts).level

end

/-- **The depth after a part of a module** is the one before it, and nowhere
within it is it smaller. -/
theorem level_of_mem_moduleParts {options : Options} {bundle : Bundle} {part : List Stroke}
    (h : part ∈ moduleParts options bundle) : Level part := by
  simp only [moduleParts, mem_append, mem_cons, not_mem_nil, mem_map,
    or_false] at h
  rcases h with (((((rfl | rfl | rfl) | ⟨decl, -, rfl⟩) | ⟨decl, -, rfl⟩) | ⟨decl, -, rfl⟩) |
    ⟨decl, -, rfl⟩) | ⟨decl, -, rfl⟩
  · exact (complete_headStrokes _).level
  · exact (complete_importStrokes _).level
  · exact level_constStrokes bundle
  · exact level_checkedStrokes fun plan => (complete_enumStrokes _ plan).level
  · exact level_checkedStrokes fun plan => (complete_structStrokes _ plan).level
  · exact level_checkedStrokes fun plan => (complete_unionStrokes _ plan).level
  · exact level_checkedStrokes fun plan => (complete_aliasStrokes _ plan).level
  · exact level_programStrokes bundle decl

/-! ### Generated code -/

variable {options : Options} {bundle : Bundle} {text : String} {error : EmitError}

/-- Code is generated where rendering does not fail. -/
theorem generate_eq_ok :
    generate options bundle = .ok text ↔
      (render options bundle).1 = text ∧ (render options bundle).2 = none := by
  rw [generate]
  rcases render options bundle with ⟨content, _ | error⟩ <;> simp

/-- Generating fails with what rendering fails with. -/
theorem generate_eq_error :
    generate options bundle = .error error ↔ (render options bundle).2 = some error := by
  rw [generate]
  rcases render options bundle with ⟨content, _ | failure⟩ <;> simp

end Emit
end Xdr
