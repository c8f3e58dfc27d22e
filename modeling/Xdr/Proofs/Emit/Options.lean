import Xdr.Proofs.Emit.Mirror

/-!
# What the options change

The options of emission add text of their own and leave everything else
alone.  The attribute at the head of a module is one line.  The structural
form of a type is one block, of which nothing but the line that imports
names knows.

## Main Statements

* `Emit.erased_bodyStrokes` — the declarations of a bundle, without and with
  structural forms
* `Emit.imports_without_structural` — the imported names, without and with
  structural forms
* `Emit.options_change_own_text` — what each option changes in the text of a
  module

## Design Notes

A block at the outermost level ends with the first line that is its closing
brace, since everything inside is indented.  So the block of a structural
form can be found in the lines, without any knowledge of how they came
about.
-/

namespace Xdr.Emit

open Bool List Output

/-! ### Erasing -/

/-- Where a line stands as to the block of a structural form. -/
inductive Place where
  | outside
  | inside
  /-- Right behind the block. -/
  | behind
  deriving DecidableEq, Repr

/-- How the block of a structural form begins. -/
def structuralStart : String :=
  "impl Structural for "

/-- The line that follows. -/
def structuralNext : String :=
  "    fn to_structural(&self) -> Value \x7b"

/-- The block of a structural form begins with a line that others follow.
The second line is looked at because a type might be called so that its own
block begins like the other. -/
def opensStructural (line : String) (others : List String) : Bool :=
  structuralStart.toList.isPrefixOf line.toList && others.head? == some structuralNext

/-- Lines without the blocks of structural forms, and without the empty line
behind each of them. -/
def withoutStructural (place : Place) : List String → List String
  | [] => []
  | line :: others =>
    match place with
    | .outside =>
      if opensStructural line others then withoutStructural .inside others
      else line :: withoutStructural .outside others
    | .inside => withoutStructural (if line = "\x7d" then .behind else .inside) others
    | .behind =>
      if line = "" then withoutStructural .outside others
        else line :: withoutStructural .outside others

variable {line text : String}

/-- Lines that erasing keeps, whatever follows them. -/
def Kept (lines : List String) : Prop :=
  ∀ others,
    withoutStructural .outside (lines ++ others) = lines ++ withoutStructural .outside others

theorem kept_nil : Kept [] :=
  fun _ => rfl

/-- A line that opens no structural part is kept. -/
theorem kept_cons {lines} (hline : ∀ others, opensStructural line (lines ++ others) = false)
    (hlines : Kept lines) : Kept (line :: lines) := by
  intro others
  rw [cons_append, withoutStructural]
  simp only [hline others]
  rw [hlines others]
  rfl

/-- Lines that are kept each are kept together. -/
theorem Kept.append {lines more} (h : Kept lines) (hmore : Kept more) :
    Kept (lines ++ more) := by
  intro others
  rw [append_assoc, h, hmore, append_assoc]

/-- A text that does not begin as the block of a structural form does. -/
def Differs (text : String) : Prop :=
  ∃ start rest : String, text = start ++ rest ∧
    ¬ start.toList <+: structuralStart.toList ∧ ¬ structuralStart.toList <+: start.toList

/-- Comparing the starts of two texts is enough. -/
theorem differs_of_start {start : String}
    (h : ¬ start.toList <+: structuralStart.toList ∧
      ¬ structuralStart.toList <+: start.toList) : Differs start :=
  ⟨start, "", String.append_empty.symm, h⟩

theorem Differs.append (h : Differs text) (more : String) : Differs (text ++ more) := by
  obtain ⟨start, rest, rfl, hstart⟩ := h
  exact ⟨start, rest ++ more, String.append_assoc .., hstart⟩

/-- A line that differs opens no structural part. -/
theorem Differs.not_opens (h : Differs line) (others : List String) :
    opensStructural line others = false := by
  obtain ⟨start, rest, rfl, hshort, hlong⟩ := h
  rw [opensStructural, and_eq_false_iff]
  refine .inl (eq_false_iff.mpr fun hbegins => ?_)
  rw [ isPrefixOf_iff_prefix, String.toList_append] at hbegins
  rcases prefix_or_prefix_of_prefix hbegins (prefix_append ..) with h | h
  · exact hlong h
  · exact hshort h

theorem Differs.kept (h : Differs line) : Kept [line] :=
  kept_cons (fun others => h.not_opens others) kept_nil

/-! ### Nesting -/

/-- A line that is empty or indented. -/
def Nested (line : String) : Prop :=
  ∀ c, line.toList.head? = some c → c = ' '

theorem nested_empty : Nested "" := by
  intro c hc
  cases hc

theorem Nested.ne_brace (h : Nested line) : line ≠ "\x7d" := by
  rintro rfl
  exact absurd (h '\x7d' (by decide)) (by decide)

/-- Nor does one that is indented or empty. -/
theorem Nested.not_opens (h : Nested line) (others : List String) :
    opensStructural line others = false := by
  rw [opensStructural, and_eq_false_iff]
  refine .inl (eq_false_iff.mpr fun hbegins => ?_)
  obtain ⟨rest, hrest⟩ := isPrefixOf_iff_prefix.mp hbegins
  have hfirst : line.toList.head? = some 'i' := by
    rw [← hrest, head?_append]
    rfl
  exact absurd (h 'i' hfirst) (by decide)

theorem kept_of_nested {lines} (h : ∀ line ∈ lines, Nested line) : Kept lines := by
  induction lines with
  | nil => exact kept_nil
  | cons line lines ih =>
    rw [forall_mem_cons] at h
    exact kept_cons (fun others => h.1.not_opens (lines ++ others)) (ih h.2)

open Doc Stroke

theorem nested_indented (level : Nat) (text : String) :
    Nested (indented (level + 1) text) := by
  intro c hc
  have hblanks : (indentation (level + 1)).toList = ' ' :: replicate (4 * level + 3) ' ' := by
    rw [indentation, String.toList_ofList]
    rfl
  rw [indented, String.toList_append, hblanks, cons_append, head?_cons,
    Option.some.injEq] at hc
  exact hc.symm

/-- What is left of some strokes when the depth is back at zero, unless one
of them fails before. -/
def outermost : Nat → List Stroke → List Stroke
  | 0, strokes => strokes
  | _ + 1, [] => []
  | depth + 1, .deeper :: strokes => outermost (depth + 2) strokes
  | depth + 1, .shallower :: strokes => outermost depth strokes
  | depth + 1, .blank :: strokes | depth + 1, .line _ :: strokes =>
    outermost (depth + 1) strokes
  | _ + 1, .fail _ :: _ => []

variable {front strokes others rest : List Stroke} {depth : Nat} {header : String}

/-- Up to that point, everything that is printed is nested. -/
theorem exists_nested (depth : Nat) (strokes : List Stroke) :
    ∃ nested, (∀ line ∈ nested, Nested line) ∧
      (print depth strokes).content =
        nested ++ (print 0 (outermost depth strokes)).content := by
  induction strokes generalizing depth with
  | nil => cases depth <;> exact ⟨[], forall_mem_nil _, rfl⟩
  | cons stroke strokes ih =>
    cases depth with
    | zero => exact ⟨[], forall_mem_nil _, rfl⟩
    | succ depth =>
      obtain ⟨nested, hnested, hcontent⟩ := ih (depth + 1)
      cases stroke with
      | blank =>
        refine ⟨"" :: nested, forall_mem_cons.mpr ⟨nested_empty, hnested⟩, ?_⟩
        exact congrArg ("" :: ·) hcontent
      | line text =>
        refine ⟨_ :: nested, forall_mem_cons.mpr ⟨nested_indented depth text, hnested⟩, ?_⟩
        exact congrArg (indented (depth + 1) text :: ·) hcontent
      | deeper => exact ih (depth + 2)
      | shallower => exact ih depth
      | fail error => exact ⟨[], forall_mem_nil _, rfl⟩

/-- Strokes that stay at their depth or below it are passed over, unless one
of them fails. -/
theorem outermost_append {first last} (h : counter first front = some last) (depth : Nat)
    (rest : List Stroke) :
    outermost (first + depth + 1) (front ++ rest) = outermost (last + depth + 1) rest ∨
      (∃ error, .fail error ∈ front) ∧
      outermost (first + depth + 1) (front ++ rest) = [] := by
  induction front generalizing first with
  | nil =>
    cases h
    exact .inl rfl
  | cons stroke front ih =>
    have hcons {first : Nat} (h : counter first front = some last) :=
      (ih h).imp_right (And.imp_left (Exists.imp fun _ => mem_cons_of_mem stroke))
    cases stroke with
    | blank | line _ => exact hcons h
    | deeper =>
      have hdeeper := @hcons (first + 1) h
      rwa [Nat.add_right_comm first 1] at hdeeper
    | shallower =>
      cases first with
      | zero => cases h
      | succ first =>
        rw [Nat.add_right_comm first 1]
        exact hcons h
    | fail error => exact .inr ⟨⟨error, mem_cons_self⟩, rfl⟩

/-- Within a block, complete strokes leave nothing outermost. -/
theorem outermost_complete (h : Complete front) (depth : Nat) (rest : List Stroke) :
    outermost (depth + 1) (front ++ rest) = outermost (depth + 1) rest := by
  rcases outermost_append (h.level.counter_eq 0) depth rest with hrest | ⟨⟨error, hmem⟩, -⟩
  · simpa using hrest
  · exact absurd hmem (h.whole error)

/-! ### Erased strokes -/

/-- Strokes whose lines are those of `strokes` without the blocks of
structural forms, whatever follows both; and where these fail, so do the
others. -/
structure Erased (strokes others : List Stroke) : Prop where
  level : Level strokes
  level_others : Level others
  failure : (print 0 strokes).failure = (print 0 others).failure
  content : ∀ rest, withoutStructural .outside ((print 0 strokes).content ++ rest) =
    (print 0 others).content ++ withoutStructural .outside rest

/-- Strokes whose lines are all kept are left alone. -/
theorem erased_of_kept (hlevel : Level strokes) (h : Kept (print 0 strokes).content) :
    Erased strokes strokes :=
  ⟨hlevel, hlevel, rfl, h⟩

theorem erased_nil : Erased [] [] :=
  erased_of_kept level_nil kept_nil

/-- Parts are erased one by one. -/
theorem Erased.append {more moreOthers} (h : Erased strokes others)
    (hmore : Erased more moreOthers) : Erased (strokes ++ more) (others ++ moreOthers) := by
  refine ⟨h.level.append hmore.level, h.level_others.append hmore.level_others, ?_,
    fun rest => ?_⟩
  · rw [h.level.print_append, h.level_others.print_append, failure_andThen_eq,
      failure_andThen_eq, h.failure, hmore.failure]
  · rw [h.level.print_append, h.level_others.print_append, andThen, andThen, h.failure]
    -- Where the strokes fail, so do the others, and nothing is printed behind that point.
    cases (print 0 others).failure with
    | some error => exact h.content rest
    | none => simp only [append_assoc, h.content, hmore.content]

theorem erased_flatten {α : Type} {items : List α} {strokes others}
    (h : ∀ item, Erased (strokes item) (others item)) :
    Erased (items.map strokes).flatten (items.map others).flatten := by
  induction items with
  | nil => exact erased_nil
  | cons item items ih => exact (h item).append ih

/-- Erasing from the strokes of a plan, if there is one. -/
theorem erased_checkedStrokes {α : Type} (plan : Except EmitError α) {strokes others}
    (h : ∀ value, Erased (strokes value) (others value)) :
    Erased (checkedStrokes plan strokes) (checkedStrokes plan others) := by
  cases plan with
  | ok value => exact h value
  | error error => exact erased_of_kept (fun _ _ => rfl) kept_nil

/-! ### Blocks -/

/-- The end of a block, and the empty line behind it. -/
def closing : List Stroke :=
  [.line "\x7d", .blank]

theorem kept_closing : Kept (print 0 closing).content :=
  (Differs.kept ⟨"\x7d", "", rfl, by decide, by decide⟩).append
    (kept_of_nested (forall_mem_singleton.mpr nested_empty))

theorem kept_line (h : Differs text) (hrest : Kept (print 0 rest).content) :
    Kept (print 0 (.line text :: rest)).content := by
  have hline : (print 0 (.line text :: rest)).content = [text] ++ (print 0 rest).content :=
    congrArg (· :: _) (indented_zero text)
  rw [hline]
  exact h.kept.append hrest

theorem kept_blank (hrest : Kept (print 0 rest).content) :
    Kept (print 0 (.blank :: rest)).content :=
  (kept_of_nested (forall_mem_singleton.mpr nested_empty)).append hrest

/-- A block of another kind is kept. -/
theorem kept_enter (h : Differs header) (hrest : Kept (print 0 (outermost 1 rest)).content) :
    Kept (print 0 (enter header ++ rest)).content := by
  obtain ⟨nested, hnested, hcontent⟩ := exists_nested 1 rest
  refine kept_line (h.append _) (?_ : Kept (print 1 rest).content)
  rw [hcontent]
  exact (kept_of_nested hnested).append hrest

theorem indented_ne_structuralNext (h : text.toList.head? = some 'p') :
    indented 1 text ≠ structuralNext := by
  intro hnext
  have htext : (indented 1 text).toList.drop 4 = text.toList := by
    rw [indented, String.toList_append]
    rfl
  rw [← htext, hnext] at h
  exact absurd h (by decide)

/-- A block of its own that a type has is told from its structural form by
the second line. -/
theorem kept_ownBlock (h : text.toList.head? = some 'p')
    (hrest : outermost 1 rest = closing) :
    Kept (print 0 (enter header ++ .line text :: rest)).content := by
  obtain ⟨nested, hnested, hcontent⟩ := exists_nested 1 (.line text :: rest)
  have hlines : (print 0 (enter header ++ .line text :: rest)).content =
      indented 0 (header ++ " \x7b") :: indented 1 text :: (print 1 rest).content := rfl
  rw [hlines]
  refine kept_cons (fun others => ?_) (?_ : Kept (print 1 (.line text :: rest)).content)
  · rw [opensStructural, and_eq_false_iff]
    exact .inr (beq_false_of_ne fun hnext =>
      indented_ne_structuralNext h (Option.some.inj hnext))
  · rw [hcontent]
    exact (kept_of_nested hnested).append (hrest ▸ kept_closing)

/-- A block is erased up to its closing brace, and the empty line behind it
as well. -/
theorem withoutStructural_inside {lines} (h : ∀ line ∈ lines, Nested line)
    (others : List String) :
    withoutStructural .inside (lines ++ (["\x7d", ""] ++ others)) =
      withoutStructural .outside others := by
  induction lines with
  | nil => rfl
  | cons line lines ih =>
    rw [forall_mem_cons] at h
    rw [cons_append, withoutStructural]
    -- A nested line is not the closing brace, so the block goes on.
    simp only [h.1.ne_brace, if_false]
    exact ih h.2

/-- **The block of a structural form** is erased. -/
theorem erased_structural {name : String}
    (hcomplete : Complete (enterStructural name ++ (enterToStructural ++ rest)))
    (hrest : outermost 2 rest = closing) :
    Erased (enterStructural name ++ (enterToStructural ++ rest)) [] := by
  obtain ⟨nested, hnested, hcontent⟩ := exists_nested 2 rest
  have hnext :
    structuralNext = indented 1 ("fn to_structural(&self) -> Value" ++ " \x7b") := by decide
  have hlines : (print 0 (enterStructural name ++ (enterToStructural ++ rest))).content =
      (structuralStart ++ name ++ " \x7b") :: structuralNext :: (nested ++ ["\x7d", ""]) := by
    have hstart := indented_zero (structuralStart ++ name ++ " \x7b")
    rw [hrest] at hcontent
    rw [hnext, ← hstart]
    exact congrArg (_ :: _ :: ·) hcontent
  refine ⟨hcomplete.level, level_nil, hcomplete.failure 0, fun others => ?_⟩
  have hopens : opensStructural (structuralStart ++ name ++ " \x7b")
      (structuralNext :: (nested ++ ["\x7d", ""]) ++ others) = true := by
    rw [opensStructural, String.append_assoc, String.toList_append, and_eq_true,
      isPrefixOf_iff_prefix]
    exact ⟨prefix_append .., beq_self_eq_true _⟩
  rw [hlines, cons_append, withoutStructural]
  simp only [hopens, if_true]
  rw [← cons_append, append_assoc]
  refine withoutStructural_inside (forall_mem_cons.mpr ⟨?_, hnested⟩) others
  rw [hnext]
  exact nested_indented 0 _

/-! ### Declarations -/

section

theorem outermost_enter (depth : Nat) (header : String) (rest : List Stroke) :
    outermost (depth + 1) (enter header ++ rest) = outermost (depth + 2) rest := rfl

theorem outermost_leaveWith (depth : Nat) (closers : String) (rest : List Stroke) :
    outermost (depth + 1) (leaveWith closers ++ rest) =
      outermost depth (.line closers :: rest) := rfl

theorem outermost_lines {α : Type} (depth : Nat) (items : List α) (text : α → String)
    (rest : List Stroke) :
    outermost (depth + 1) ((items.map fun item => .line (text item)) ++ rest) =
      outermost (depth + 1) rest :=
  outermost_complete ⟨level_lines items text, by simp⟩ depth rest

attribute [local simp] closing outermost outermost_enter outermost_leaveWith outermost_lines
  leave enterPack enterUnpack enterFromStructural

theorem differs_derive : Differs deriveText :=
  differs_of_start (by decide)

theorem erased_wire {name} (hlevel : Level (enterWire name ++ rest))
    (hrest : outermost 1 rest = closing) :
    Erased (enterWire name ++ rest) (enterWire name ++ rest) :=
  erased_of_kept hlevel
    (kept_enter ((differs_of_start (by decide)).append _) (hrest ▸ kept_closing))

/-- **Enumerations.** -/
theorem erased_enumStrokes (plan : EnumPlan) :
    Erased (enumStrokes true plan) (enumStrokes false plan) := by
  have htype : Kept (print 0 (enumTypeStrokes plan)).content := by
    refine kept_line (differs_of_start (by decide)) (kept_line (differs_of_start (by decide))
      (kept_enter ((differs_of_start (by decide)).append _) ?_))
    by_cases h : plan.members = [] <;> simpa [h] using kept_closing
  have himpl : Kept (print 0 (enumImplStrokes plan)).content := by
    refine kept_ownBlock ?_ ?_
    · simp only [String.toList_append]
      rfl
    · simp
  have hnumber : Kept (print 0 (enumNumberStrokes plan)).content := by
    refine kept_enter (((differs_of_start (by decide)).append _).append _) ?_
    simpa using kept_closing
  exact (erased_of_kept (complete_enumTypeStrokes plan).level htype).append <|
    (erased_of_kept (complete_enumImplStrokes plan).level himpl).append <|
    (erased_of_kept (complete_enumNumberStrokes plan).level hnumber).append <|
    (erased_wire (complete_enumWireStrokes plan).level (by simp [fromValueStrokes])).append <|
    (erased_structural (complete_enumStructuralStrokes plan)
      (by simp [fromValueStrokes])).append erased_nil

/-- **Structures.** -/
theorem erased_structStrokes (plan : StructPlan) :
    Erased (structStrokes true plan) (structStrokes false plan) := by
  have htype : Kept (print 0 (structTypeStrokes plan)).content := by
    refine kept_line differs_derive (kept_enter ((differs_of_start (by decide)).append _) ?_)
    simpa using kept_closing
  exact (erased_of_kept (complete_structTypeStrokes plan).level htype).append <|
    (erased_wire (complete_structWireStrokes plan).level (by simp)).append <|
    (erased_structural (complete_structStructuralStrokes plan) (by simp)).append erased_nil

/-- **Type definitions.** -/
theorem erased_aliasStrokes (plan : AliasPlan) :
    Erased (aliasStrokes true plan) (aliasStrokes false plan) := by
  have htype : Kept (print 0 (aliasTypeStrokes plan)).content := by
    refine kept_line differs_derive (kept_line
      (((((differs_of_start (by decide)).append _).append _).append _).append _)
      (kept_blank (kept_enter ((((differs_of_start (by decide)).append _).append _).append _)
        ?_)))
    simpa using kept_closing
  exact (erased_of_kept (complete_aliasTypeStrokes plan).level htype).append <|
    (erased_wire (complete_aliasWireStrokes plan).level (by simp)).append <|
    (erased_structural (complete_aliasStructuralStrokes plan) (by simp)).append erased_nil

/-- **Unions.** -/
theorem erased_unionStrokes (plan : UnionPlan) :
    Erased (unionStrokes true plan) (unionStrokes false plan) := by
  have htype : Kept (print 0 (unionTypeStrokes plan)).content := by
    refine kept_line differs_derive (kept_enter ((differs_of_start (by decide)).append _) ?_)
    simpa using kept_closing
  have harm : Kept (print 0 (armStrokes plan)).content :=
    kept_ownBlock (by decide) (by simp [outermost_complete (complete_selectStrokes plan)])
  have hpack := complete_choiceStrokes plan "self" (complete_packStrokes plan)
  have hunpack := complete_choiceStrokes plan "result" fun arm =>
    complete_line (unpackText arm)
  have hinsert := complete_choiceStrokes plan "self" complete_insertStrokes
  have hread := complete_choiceStrokes plan "result" fun arm => complete_line (readText arm)
  have hwire := erased_wire (complete_unionWireStrokes plan).level
    (by simp [outermost_complete hpack, outermost_complete hunpack])
  have hform := erased_structural (complete_unionStructuralStrokes plan) (by
    by_cases h : plan.arms = [] <;>
      simp [h, outermost_complete hinsert, outermost_complete hread])
  exact (erased_of_kept (complete_unionTypeStrokes plan).level htype).append <|
    (erased_of_kept (complete_armStrokes plan).level harm).append <|
    hwire.append <| hform.append erased_nil

/-- Constants have no structural part. -/
theorem erased_constStrokes (bundle : Bundle) :
    Erased (constStrokes bundle) (constStrokes bundle) := by
  refine erased_of_kept (level_constStrokes bundle) ?_
  rw [constStrokes]
  split
  · exact kept_nil
  · cases bundle.consts.mapM (constText bundle) with
    | error error => exact kept_nil
    | ok texts =>
      have hlines : Complete (texts.map .line) := ⟨level_lines texts id, by simp⟩
      refine kept_enter (differs_of_start (by decide)) ?_
      cases bundle.consts.any fun decl => isByName decl.value <;>
        simpa [superStrokes, outermost_complete hlines] using kept_closing

/-- Nor have programs. -/
theorem erased_programStrokes (bundle : Bundle) (decl : ProgramDecl) :
    Erased (programStrokes bundle decl) (programStrokes bundle decl) := by
  refine erased_of_kept (level_programStrokes bundle decl) ?_
  rw [programStrokes]
  cases bundle.unsignedText decl.number decl.name with
  | error error => exact kept_nil
  | ok id =>
    refine kept_enter ((differs_of_start (by decide)).append _) ?_
    -- A version that fails ends the text inside of the module.
    have hversions := outermost_append ((level_versions bundle decl).counter_eq 0) 0
      (leaveWith "\x7d" ++ [.blank])
    rw [Nat.zero_add] at hversions
    rcases hversions with hversions | ⟨-, hversions⟩
    · simpa [superStrokes, hversions] using kept_closing
    · simpa [superStrokes, hversions, Stroke.print, wrote] using kept_nil

end

/-! ### Modules -/

/-- The lines of an emitted module, up to the first error. -/
def lines (options : Options) (bundle : Bundle) : List String :=
  (Stroke.print 0 (moduleStrokes options bundle)).content

/-- The lines at the head of a module. -/
def headLines (inner : Bool) : List String :=
  ["// @generated by xdrgen"] ++ (if inner then [innerLine] else []) ++ [""]

/-- The line that imports items of the runtime, and the empty line behind
it. -/
def importLines (items : List String) : List String :=
  match items with
  | [] => []
  | [item] => ["use ::xdr_runtime::" ++ item ++ ";", ""]
  | items => ["use ::xdr_runtime::\x7b" ++ ", ".intercalate items ++ "\x7d;", ""]

/-- The items that only structural forms use. -/
def structuralItems : List String :=
  ["Map", "Structural", "Value", "structural"]

/-- The strokes behind the head and the imports of a module. -/
def bodyStrokes (options : Options) (bundle : Bundle) : List Stroke :=
  ((moduleParts options bundle).drop 2).flatten

/-- **The body of a module** without its structural parts. -/
theorem erased_bodyStrokes (inner : Bool) (bundle : Bundle) :
    Erased (bodyStrokes ⟨inner, true⟩ bundle) (bodyStrokes ⟨inner, false⟩ bundle) := by
  simp only [bodyStrokes, moduleParts, append_assoc, cons_append, nil_append,
    drop_succ_cons, drop_zero, flatten_cons, flatten_append]
  refine (erased_constStrokes bundle).append
    (Erased.append ?_ (.append ?_ (.append ?_ (.append ?_ ?_))))
  · exact erased_flatten fun decl => erased_checkedStrokes _ erased_enumStrokes
  · exact erased_flatten fun decl => erased_checkedStrokes _ erased_structStrokes
  · exact erased_flatten fun decl => erased_checkedStrokes _ erased_unionStrokes
  · exact erased_flatten fun decl => erased_checkedStrokes _ erased_aliasStrokes
  · exact erased_flatten (erased_programStrokes bundle)

theorem prints_headStrokes (inner : Bool) :
    Prints 0 (headStrokes inner) (headLines inner) := by
  cases inner <;> exact fun _ => rfl

theorem prints_importStrokes (items : List String) :
    Prints 0 (importStrokes items) (importLines items) := by
  intro rest
  rcases items with _ | ⟨item, _ | ⟨next, others⟩⟩
  · rfl
  · exact congrArg (fun text => (wrote [text, ""]).andThen (print 0 rest)) (indented_zero _)
  · exact congrArg (fun text => (wrote [text, ""]).andThen (print 0 rest)) (indented_zero _)

/-- The lines of a module: its head, its imports and its body. -/
theorem lines_eq (options : Options) (bundle : Bundle) :
    lines options bundle = headLines options.inner ++ importLines (imports options bundle) ++
      (print 0 (bodyStrokes options bundle)).content := by
  have hstrokes : moduleStrokes options bundle =
      headStrokes options.inner ++
      (importStrokes (imports options bundle) ++ bodyStrokes options bundle) :=
    rfl
  rw [lines, hstrokes, prints_headStrokes, prints_importStrokes, wrote_andThen_andThen]
  rfl

/-- What is not imported for the sake of structural forms is imported
without them as well; and where names are left out, there remain several. -/
theorem imports_without_structural (inner : Bool) (bundle : Bundle) :
    imports ⟨inner, false⟩ bundle =
      (imports ⟨inner, true⟩ bundle).filter (· ∉ structuralItems) ∧
      (imports ⟨inner, false⟩ bundle = imports ⟨inner, true⟩ bundle ∨
        1 < (imports ⟨inner, false⟩ bundle).length) := by
  -- What is imported depends on which groups of declarations are empty, and on nothing else.
  dsimp only [imports]
  generalize bundle.enums.isEmpty = enums
  generalize bundle.structs.isEmpty = structs
  generalize bundle.unions.isEmpty = unions
  generalize bundle.typedefs.isEmpty = typedefs
  generalize bundle.programs.isEmpty = programs
  cases enums <;> cases structs <;> cases unions <;> cases typedefs <;>
    cases programs <;> decide

theorem content_renderTo_none (options : Options) (bundle : Bundle) :
    (renderTo none options bundle).content = Text.utf8 (Doc.text (lines options bundle)) := by
  rw [renderTo_none, content_rendered, render, lines]

/-- **Options change nothing but their own text.**  They do not decide
whether a bundle can be emitted, or what is reported.  The attribute of a
module is one line behind the first one.  Without structural forms, the
names that only these use are missing from the import, and their blocks from
the rest; and every other line is the same. -/
theorem options_change_own_text (bundle : Bundle) :
    (∀ options others,
      (renderTo none options bundle).failure = (renderTo none others bundle).failure) ∧
    (∀ options,
      (renderTo none options bundle).content = Text.utf8 (Doc.text (lines options bundle))) ∧
    (∀ structural, ∃ first rest, lines ⟨false, structural⟩ bundle = first :: rest ∧
      lines ⟨true, structural⟩ bundle = first :: innerLine :: rest) ∧
    ∀ inner, ∃ items kept body, kept = items.filter (· ∉ structuralItems) ∧
      (kept = items ∨ 1 < kept.length) ∧
      lines ⟨inner, true⟩ bundle = headLines inner ++ importLines items ++ body ∧
      lines ⟨inner, false⟩ bundle =
        headLines inner ++ importLines kept ++ withoutStructural .outside body := by
  refine ⟨fun options others => ?_, fun options => content_renderTo_none options bundle,
    fun structural => ?_, fun inner => ?_⟩
  · rw [failure_renderTo_none, failure_renderTo_none]
  · refine ⟨_, _, lines_eq _ bundle, ?_⟩
    exact lines_eq _ bundle
  · obtain ⟨hkept, hseveral⟩ := imports_without_structural inner bundle
    refine ⟨_, _, _, hkept, hseveral, lines_eq _ bundle, ?_⟩
    have hbody := (erased_bodyStrokes inner bundle).content []
    rw [append_nil, withoutStructural, append_nil] at hbody
    rw [hbody]
    exact lines_eq _ bundle

end Xdr.Emit
