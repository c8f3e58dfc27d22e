import Xdr.Proofs.Emit.Delivery
import Xdr.Proofs.Emit.Wording

/-!
# Brackets and words of strokes

Which brackets are open after some strokes, given those that are open before
them.  Strokes are gone through from the first to the last, with the open
brackets as the only thing to remember: a line may open what a later line
closes.  Along the way every line uses only items of the runtime that are
given.

## Main Definitions

* `Stroke.Runs` — the strokes lead from some open brackets to others
* `Stroke.Writes` — so does what is printed

## Main Statements

* `Stroke.Runs.writes` — what such strokes print

## Design Notes

Strokes may fail in the middle, with brackets that are still open.  So the
statement about what is printed has two halves: no bracket is closed that is
not open, whether it fails or not; and if it does not fail, what is open
behind it is what the strokes lead to.
-/

namespace Xdr

open Doc List Output

namespace Emit

variable {allowed : List String}

/-- Characters that belong to no word, in front of a text. -/
theorem Covered.after_gap {gap text} (hgap : ∀ c ∈ gap, Lexer.continuesWord c = false)
    (h : Covered allowed text) : Covered allowed (gap ++ text) := by
  refine Covered.append ?_ h (.inl fun c hc => hgap c (mem_of_getLast? hc))
  rintro item hitem ⟨before, ⟨after, rfl, -⟩, -⟩
  obtain ⟨hne, hword⟩ := word_of_mem_runtimeItems hitem
  obtain ⟨c, rest, hitemchars⟩ := exists_cons_of_ne_nil hne
  have hc : c ∈ item.toList := by
    rw [hitemchars]
    exact mem_cons_self
  have hout := hgap c (mem_append_left _ (mem_append_right _ hc))
  rw [hword c hc] at hout
  cases hout

end Emit

namespace Stroke

open Xdr.Bracket Emit

variable {allowed : List String} {before within after stack : List Bracket}
  {front back strokes : List Stroke} {text header : String}

/-! ### Open brackets -/

/-- The lines of the strokes lead from the brackets that are open before
them to those that are open after them, and use only the items given. -/
def Runs (allowed : List String) : List Bracket → List Stroke → List Bracket → Prop
  | before, [], after => before = after
  | before, .line text :: strokes, after =>
    Covered allowed text.toList ∧
      ∃ within, nest before text.toList = some within ∧ Runs allowed within strokes after
  | before, _ :: strokes, after => Runs allowed before strokes after

theorem runs_nil : Runs allowed stack [] stack := rfl

theorem Runs.append (hfront : Runs allowed before front within)
    (hback : Runs allowed within back after) : Runs allowed before (front ++ back) after := by
  induction front generalizing before with
  | nil =>
    cases hfront
    exact hback
  | cons stroke front ih =>
    cases stroke with
    | blank | deeper | shallower | fail _ => exact ih hfront
    | line text =>
      obtain ⟨hcovered, next, hnest, hrest⟩ := hfront
      exact ⟨hcovered, next, hnest, ih hrest⟩

/-- The strokes of an emitter, part by part. -/
theorem Runs.cons {parts : List (List Stroke)} (hpart : Runs allowed before front within)
    (hparts : Runs allowed within parts.flatten after) :
    Runs allowed before (front :: parts).flatten after :=
  hpart.append hparts

theorem runs_flatMap {α : Type} {items : List α} {f : α → List Stroke}
    (h : ∀ item ∈ items, Runs allowed stack (f item) stack) :
    Runs allowed stack (items.flatMap f) stack := by
  induction items with
  | nil => exact runs_nil
  | cons item items ih =>
    obtain ⟨hitem, hitems⟩ := forall_mem_cons.mp h
    exact hitem.append (ih hitems)

theorem Runs.opening {opened} (htext : Leaves allowed opened text)
    (h : Runs allowed (opened ++ before) strokes after) :
    Runs allowed before (.line text :: strokes) after :=
  ⟨htext.covered, _, nest_frame htext.nests before, h⟩

theorem Runs.line (htext : Sound allowed text) (h : Runs allowed before strokes after) :
    Runs allowed before (.line text :: strokes) after :=
  .opening htext h

theorem runs_line (h : Sound allowed text) : Runs allowed stack [.line text] stack :=
  .line h runs_nil

theorem runs_lines {α : Type} {items : List α} {text : α → String}
    (h : ∀ item ∈ items, Sound allowed (text item)) :
    Runs allowed stack (items.map fun item => .line (text item)) stack := by
  rw [map_eq_flatMap]
  exact runs_flatMap fun item hitem => runs_line (h item hitem)

theorem runs_blank : Runs allowed stack [.blank] stack := rfl

/-- A line that opens a brace. -/
theorem runs_enter (h : Leaves allowed [.curly] (header ++ " \x7b")) :
    Runs allowed stack (enter header) (.curly :: stack) :=
  .opening h rfl

/-- A line that opens a brace within the arguments of a function. -/
theorem runs_enterCall (h : Leaves allowed [.curly, .round] (header ++ " \x7b")) :
    Runs allowed stack (enter header) (.curly :: .round :: stack) :=
  .opening h rfl

/-- A fixed text, whatever brackets it opens and closes. -/
theorem Runs.fixed {chars} (hnest : nest before chars = some within)
    (hcovers : covers [] chars = true) (h : Runs allowed within strokes after) :
    Runs allowed before (.line (String.ofList chars) :: strokes) after := by
  refine ⟨fun item hitem huses => ?_, within, by rw [String.toList_ofList, hnest], h⟩
  rw [String.toList_ofList] at huses
  exact absurd (covered_of_covers hcovers item hitem huses) not_mem_nil

/-- A text that closes a brace before it goes on. -/
theorem Runs.resuming {opened} (htext : Leaves allowed opened text)
    (h : Runs allowed (opened ++ before) strokes after) :
    Runs allowed (.curly :: before) (.line ("\x7d" ++ text) :: strokes) after := by
  have hchars : ("\x7d" ++ text).toList = ['\x7d'] ++ text.toList := String.toList_append
  refine ⟨?_, _, ?_, h⟩
  · rw [hchars]
    exact htext.covered.after_gap (forall_mem_singleton.mpr rfl)
  · rw [hchars]
    exact nest_frame htext.nests before

theorem runs_leaveWith {chars} (hnest : nest before chars = some after)
    (hcovers : covers [] chars = true) :
    Runs allowed before (leaveWith (String.ofList chars)) after :=
  .fixed hnest hcovers runs_nil

theorem runs_leave : Runs allowed (.curly :: stack) leave stack :=
  runs_leaveWith rfl rfl

theorem runs_onlyIf {wanted} (h : wanted = true → Runs allowed stack strokes stack) :
    Runs allowed stack (if wanted then strokes else []) stack := by
  cases wanted with
  | false => exact runs_nil
  | true => exact h rfl

/-! ### Printed lines -/

/-- What is printed uses only the items given.  Its brackets lead from those
that are open before it to those that are open after it, unless it fails;
and if it fails, no bracket was closed that was not open. -/
structure Writes (allowed : List String) (before : List Bracket)
    (printed : Output EmitError String) (after : List Bracket) : Prop where
  covered : Covered allowed (Doc.text printed.content).toList
  leads : ∃ stack, nest before (Doc.text printed.content).toList = some stack ∧
    (printed.failure = none → stack = after)

/-- The characters of printed lines. -/
theorem toList_text (lines : List String) :
    (Doc.text lines).toList = lines.flatMap fun line => line.toList ++ ['\n'] := by
  induction lines with
  | nil => rfl
  | cons line lines ih =>
    have htext : text (line :: lines) = line ++ "\n" ++ text lines := by
      rw [text, map_cons, String.join_cons, text]
    rw [htext, String.toList_append, String.toList_append, ih, flatMap_cons]
    rfl

/-- One line, and what is printed behind it. -/
theorem Writes.after_line {line : String} {printed} (hcovered : Covered allowed line.toList)
    (hnest : nest before line.toList = some within)
    (h : Writes allowed within printed after) :
    Writes allowed before ((wrote [line]).andThen printed) after := by
  obtain ⟨hmore, stack, hstack, hend⟩ := h
  have hchars : (text ((wrote [line]).andThen printed).content).toList =
      line.toList ++ (['\n'] ++ (Doc.text printed.content).toList) := by
    simp only [andThen, wrote, text_append, String.toList_append, toList_text [line],
      flatMap_singleton, append_assoc]
  have hnewline : Lexer.continuesWord '\n' = false := rfl
  refine ⟨?_, stack, ?_, hend⟩
  · rw [hchars]
    exact hcovered.append (hmore.after_gap (forall_mem_singleton.mpr hnewline))
      (.inr fun c hc => by cases hc; exact hnewline)
  · rw [hchars, nest_append_of_eq hnest]
    exact hstack

/-- **What strokes print** leads from the brackets that are open before them
to those that are open after them, at any depth. -/
theorem Runs.writes (h : Runs allowed before strokes after) (depth : Nat) :
    Writes allowed before (print depth strokes) after := by
  induction strokes generalizing before depth with
  | nil => exact ⟨covered_nil allowed, before, rfl, fun _ => h⟩
  | cons stroke strokes ih =>
    cases stroke with
    | blank => exact .after_line (covered_nil allowed) rfl (ih h depth)
    | deeper | shallower => exact ih h _
    | fail error => exact ⟨covered_nil allowed, before, rfl, fun hnone => by cases hnone⟩
    | line text =>
      obtain ⟨hcovered, within, hnest, hrest⟩ := h
      have hchars : (indented depth text).toList =
          replicate (4 * depth) ' ' ++ text.toList := by
        rw [indented, indentation, String.toList_append, String.toList_ofList]
      refine .after_line ?_ ?_ (ih hrest depth)
      · rw [hchars]
        refine hcovered.after_gap fun c hc => ?_
        rw [eq_of_mem_replicate hc]
        rfl
      · have hblanks : ∀ c ∈ replicate (4 * depth) ' ', (c == ' ') = true := fun c hc =>
          beq_iff_eq.mpr (eq_of_mem_replicate hc)
        rw [hchars, nest_append_of_eq
          (nest_apart (fun bracket => by cases bracket <;> exact ⟨rfl, rfl⟩) hblanks before),
          hnest]

end Stroke
end Xdr
