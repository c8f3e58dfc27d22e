import Xdr.CommandLine.Run
import Xdr.Proofs.Files

/-!
# What a failed run leaves behind

A run that fails shows no output.  Whether its output file survives depends
only on how far the run came: until the file is opened nothing is changed,
and from then on the file is empty.

## Main Statements

* `CommandLine.run_of_opening` — the files after a failed run are those that
  the filter leaves
* `CommandLine.kept_iff_of_failed` — the output file keeps its content if
  and only if it was not opened or had none

## Design Notes

The filter runs between the opening of the output and the compilation.  Its
command may be any program, and a program may write to any file: a filter
with the command `tee notes.txt` does.  So all statements hold for every way
of starting commands.  The files at the moment after the opening are told
without any assumption, and the files at the end for commands that leave the
files alone.
-/

namespace Xdr

open Compile Files Host Text

namespace Files

variable {α β : Type}

/-- An action leaves all files as they are. -/
def Keeps (action : StateM Files α) : Prop :=
  ∀ files, (action.run files).2 = files

theorem run_bind (action : StateM Files α) (next : α → StateM Files β) (files : Files) :
    (action >>= next).run files = (next (action.run files).1).run (action.run files).2 :=
  rfl

namespace Keeps

theorem pure (value : α) : Keeps (Pure.pure value : StateM Files α) :=
  fun _ => rfl

/-- What follows an action that keeps the files finds them as they were. -/
theorem run_bind {action} (h : Keeps action) (next : α → StateM Files β) (files : Files) :
    (action >>= next).run files = (next (action.run files).1).run files := by
  rw [Files.run_bind, h files]

theorem bind {action : StateM Files α} {next : α → StateM Files β} (h : Keeps action)
    (hnext : ∀ value, Keeps (next value)) : Keeps (action >>= next) := by
  intro files
  rw [h.run_bind]
  exact hnext _ files

theorem read (input : List UInt8) (path : String) : Keeps ((ofFiles input).read path) :=
  fun _ => rfl

end Keeps
end Files

open Files (Keeps)

namespace CommandLine

variable {invocation : Invocation} {input : List UInt8} {files : Files}
    {path name text : String}
  {options : Options} {filter : Option Filter} {opened : Files} {args : List String}
  {commands : Commands (StateM Files)}

/-- A run comes to compile the source with the given name and text: the
definitions and the command of the filter are understood, the source is
read, and the output is opened, after which there are the files `opened`. -/
structure Opening (invocation : Invocation) (input : List UInt8) (files : Files)
    (options : Options)
    (filter : Option Filter) (name text : String) (opened : Files) : Prop where
  understood : readOptions invocation = .ok (options, filter)
  read : ((readSource (ofFiles input) invocation).run files).1 = .ok (name, text)
  cleared : ((Target.of invocation.output).clear (ofFiles input)).run files = (.ok (), opened)

/-- A run opens its output. -/
def Opens (invocation : Invocation) (input : List UInt8) (files : Files) : Prop :=
  ∃ options filter name text opened,
    Opening invocation input files options filter name text opened

/-- The command of the filter, if the run comes to start one, leaves the
files that it finds. -/
def CommandKeepsFiles (commands : Commands (StateM Files)) (invocation : Invocation)
    (input : List UInt8) (files : Files) : Prop :=
  ∀ options filter name text opened,
    Opening invocation input files options (some filter) name text opened →
      let started := filter.defineAll options.defines
      ((commands started.command started.args (utf8 text)).run opened).2 = opened

/-! ### Stages -/

theorem keeps_readSource (input : List UInt8) (invocation : Invocation) :
    Keeps (readSource (ofFiles input) invocation) := by
  unfold readSource
  split
  · exact .bind (fun _ => rfl) fun _ => .pure _
  · refine .bind ?_ fun _ => .pure _
    unfold readFile
    split
    · exact .bind (fun _ => rfl) fun _ => .pure _
    · exact .read input _

/-- A filter leaves the files that its command leaves. -/
theorem files_run (commands : Commands (StateM Files)) (filter : Filter) (text : String)
    (files : Files) :
    ((filter.run commands text).run files).2 =
      ((commands filter.command filter.args (utf8 text)).run files).2 := by
  rw [Filter.run, run_bind]
  split <;> rfl

/-- What is done before the compilation leaves the files alone, if the
command of the filter does. -/
theorem Opening.files_prepare
    (h : Opening invocation input files options filter name text opened)
    (hkeeps : CommandKeepsFiles commands invocation input files) :
    ((prepare commands options filter text).run opened).2 = opened := by
  cases filter with
  | none => rfl
  | some filter =>
    rw [prepare, files_run]
    exact hkeeps options filter name text opened h

theorem run_write_of_ok {bytes after} (h : files.write path bytes = .ok after) :
    ((ofFiles input).write path bytes).run files = (.ok (), after) := by
  simp only [ofFiles, StateT.run, h]

theorem run_write_of_error {bytes error} (h : files.write path bytes = .error error) :
    ((ofFiles input).write path bytes).run files = (.error error, files) := by
  simp only [ofFiles, StateT.run, h]

theorem clear_file_of_ok (h : files.write path [] = .ok opened) :
    ((Target.file path).clear (ofFiles input)).run files = (.ok (), opened) := by
  rw [Target.clear, run_bind, run_write_of_ok h]
  rfl

theorem clear_file_of_error {error} (h : files.write path [] = .error error) :
    ((Target.file path).clear (ofFiles input)).run files =
      (.error (.unwritableFile path error), files) := by
  rw [Target.clear, run_bind, run_write_of_error h]
  rfl

/-- A target that refuses to be opened leaves the files as they are. -/
theorem run_clear (input : List UInt8) (files : Files) (target : Target) :
    (∃ failure, (target.clear (ofFiles input)).run files = (.error failure, files)) ∨
      ∃ opened, (target.clear (ofFiles input)).run files = (.ok (), opened) := by
  cases target with
  | file path =>
    cases hwrite : files.write path [] with
    | error error => exact .inl ⟨_, clear_file_of_error hwrite⟩
    | ok opened => exact .inr ⟨opened, clear_file_of_ok hwrite⟩
  | _ => exact .inr ⟨files, rfl⟩

theorem write_of_clear_file
    (h : ((Target.file path).clear (ofFiles input)).run files = (.ok (), opened)) :
    files.write path [] = .ok opened := by
  cases hwrite : files.write path [] with
  | error error =>
    rw [clear_file_of_error hwrite] at h
    cases h
  | ok found =>
    rw [clear_file_of_ok hwrite] at h
    cases h
    rfl

/-- A result that is not taken leaves the files as they are, and nothing is
shown. -/
theorem deliver_of_failed {target mode complaints}
    (h : ((deliver (ofFiles input) target mode name complaints text).run
      files).1.exitCode ≠ 0) :
    ((deliver (ofFiles input) target mode name complaints text).run files).1.output = "" ∧
      ((deliver (ofFiles input) target mode name complaints text).run files).2 = files := by
  cases target with
  | file path =>
    rw [deliver] at h ⊢
    cases hwrite : files.write path (utf8 text) with
    | error error =>
      rw [run_bind, run_write_of_error hwrite]
      exact ⟨rfl, rfl⟩
    | ok after =>
      rw [run_bind, run_write_of_ok hwrite] at h
      exact absurd rfl h
  | _ => exact absurd rfl h

/-- A failed compilation leaves the files that the filter left, and nothing
is shown. -/
theorem compile_of_failed {mode target}
    (h : ((compile commands (ofFiles input) mode options filter target name text).run
      files).1.exitCode ≠ 0) :
    ((compile commands (ofFiles input) mode options filter target name text).run
      files).1.output = "" ∧
      ((compile commands (ofFiles input) mode options filter target name text).run files).2 =
        ((prepare commands options filter text).run files).2 := by
  rw [compile, run_bind] at h ⊢
  dsimp only at h ⊢
  split at h
  · exact ⟨rfl, rfl⟩
  · exact deliver_of_failed h

/-! ### Runs -/

theorem run_of_invocation (h : Invocation.ofArgs args = .ok invocation) :
    run commands args input files =
      (perform commands (ofFiles input) invocation).run files := by
  rw [run, runOn, h]

/-- A run that opens its output compiles the source with the files that are
left then. -/
theorem perform_of_opening
    (h : Opening invocation input files options filter name text opened) :
    (perform commands (ofFiles input) invocation).run files =
      (compile commands (ofFiles input) invocation.mode options filter
        (Target.of invocation.output) name text).run
        opened := by
  unfold perform
  rw [h.understood]
  simp only [(keeps_readSource input invocation).run_bind, h.read]
  rw [run_bind, h.cleared]

/-- A run that does not open its output leaves the files as they are, and
nothing is shown. -/
theorem perform_of_not_opens (h : ¬ Opens invocation input files) :
    ((perform commands (ofFiles input) invocation).run files).1.output = "" ∧
      ((perform commands (ofFiles input) invocation).run files).2 = files := by
  unfold perform
  cases hoptions : readOptions invocation with
  | error failure => exact ⟨rfl, rfl⟩
  | ok found =>
    obtain ⟨options, filter⟩ := found
    simp only [(keeps_readSource input invocation).run_bind]
    cases hsource : ((readSource (ofFiles input) invocation).run files).1 with
    | error failure => exact ⟨rfl, rfl⟩
    | ok source =>
      obtain ⟨name, text⟩ := source
      obtain ⟨failure, hclear⟩ | ⟨opened, hclear⟩ :=
        run_clear input files (Target.of invocation.output)
      · rw [run_bind, hclear]
        exact ⟨rfl, rfl⟩
      · exact absurd ⟨options, filter, name, text, opened, hoptions, hsource, hclear⟩ h

/-- The files after a failed run that opened its output are those that the
filter left, and nothing is shown. -/
theorem run_of_opening (hargs : Invocation.ofArgs args = .ok invocation)
    (hfailed : (run commands args input files).1.exitCode ≠ 0)
    (h : Opening invocation input files options filter name text opened) :
    (run commands args input files).1.output = "" ∧
      (run commands args input files).2 =
        ((prepare commands options filter text).run opened).2 := by
  rw [run_of_invocation hargs, perform_of_opening h] at hfailed ⊢
  exact compile_of_failed hfailed

theorem run_of_not_opens (hargs : Invocation.ofArgs args = .ok invocation)
    (h : ¬ Opens invocation input files) :
    (run commands args input files).1.output = "" ∧
    (run commands args input files).2 = files := by
  rw [run_of_invocation hargs]
  exact perform_of_not_opens h

/-- Nothing is shown by a failed run. -/
theorem output_of_failed (hfailed : (run commands args input files).1.exitCode ≠ 0) :
    (run commands args input files).1.output = "" := by
  cases hargs : Invocation.ofArgs args with
  | error stop =>
    rw [run, runOn, hargs] at hfailed ⊢
    cases stop with
    | misuse => rfl
    | version => exact absurd rfl hfailed
    | help => exact absurd rfl hfailed
  | ok invocation =>
    by_cases hopens : Opens invocation input files
    · obtain ⟨_, _, _, _, _, hopening⟩ := hopens
      exact (run_of_opening hargs hfailed hopening).1
    · exact (run_of_not_opens hargs hopens).1

/-- The opened output file is empty, and every other file is as before. -/
theorem Opening.read_opened
    (h : Opening invocation input files options filter name text opened)
    (hpath : Target.of invocation.output = .file path) :
    opened.read path = .ok [] ∧
      ∀ other, files.target path ≠ .ok (.file other) →
      opened.find? other = files.find? other := by
  have hcleared := h.cleared
  rw [hpath] at hcleared
  have hwrite := write_of_clear_file hcleared
  refine ⟨?_, fun other hother => find?_write hwrite hother⟩
  obtain ⟨_, _, hread⟩ | ⟨_, hread⟩ := read_write hwrite
  · exact hread
  · exact hread

/-- **What a failed run leaves behind**, whatever the commands do that it
starts.  Nothing is shown.  If the output was not opened, because the
definitions, the command of the filter, the input or the output itself was
refused, then every file is as before.  If it was opened, then it was made
empty before the source was filtered and compiled, and the run leaves the
files that the filter left.  So, if the command of the filter leaves the
files alone, every other file is as before, and the output file has the
content it had if and only if it was not opened or had none. -/
theorem kept_iff_of_failed {args : List String}
    (hfailed : (run commands args input files).1.exitCode ≠ 0) :
    (run commands args input files).1.output = "" ∧
      ∀ invocation path, Invocation.ofArgs args = .ok invocation →
        Target.of invocation.output = .file path →
        (¬ Opens invocation input files → (run commands args input files).2 = files) ∧
        (∀ options filter name text opened,
          Opening invocation input files options filter name text opened →
          opened.read path = .ok [] ∧
            (∀ other, files.target path ≠ .ok (.file other) →
              opened.find? other = files.find? other) ∧
            (run commands args input files).2 =
              ((Compile.prepare commands options filter text).run opened).2) ∧
        (CommandKeepsFiles commands invocation input files →
          (∀ other, files.target path ≠ .ok (.file other) →
            (run commands args input files).2.find? other = files.find? other) ∧
          ((run commands args input files).2.read path = files.read path ↔
            ¬ Opens invocation input files ∨ files.read path = .ok [])) := by
  refine ⟨output_of_failed hfailed, fun invocation path hargs hpath => ?_⟩
  refine ⟨fun hopens => (run_of_not_opens hargs hopens).2, ?_, fun hkeeps => ?_⟩
  · intro options filter name text opened hopening
    obtain ⟨hempty, hothers⟩ := hopening.read_opened hpath
    exact ⟨hempty, hothers, (run_of_opening hargs hfailed hopening).2⟩
  · by_cases hopens : Opens invocation input files
    · -- The command keeps the files, so they are those of the moment after the opening.
      obtain ⟨options, filter, name, text, opened, hopening⟩ := hopens
      have hleft := (run_of_opening hargs hfailed hopening).2
      rw [hopening.files_prepare hkeeps] at hleft
      obtain ⟨hempty, hothers⟩ := hopening.read_opened hpath
      rw [hleft]
      refine ⟨hothers, ?_⟩
      rw [hempty, eq_comm]
      exact ⟨.inr, fun h => h.resolve_left fun hnot => hnot ⟨_, _, _, _, _, hopening⟩⟩
    · rw [(run_of_not_opens hargs hopens).2]
      exact ⟨fun _ _ => rfl, ⟨fun _ => .inl hopens, fun _ => rfl⟩⟩

/-- A source that ends in its middle, and the result of an earlier run. -/
def brokenSource : Files := [("in.x", utf8 "struct"), ("out.rs", utf8 "old")]

/-- Every command writes its input as it is, and looks at no file. -/
def passingOn : Commands (StateM Files) := fun _ _ input =>
  return .ok ⟨.exited 0, input, [], .ok ()⟩

/-- The invocation that filters the source and compiles it again. -/
def compileAgain : Invocation where
  mode := .generate
  defines := []
  filter := some none
  output := some "out.rs"
  input := some "in.x"
  standalone := false
  structural := true

theorem opening_compileAgain :
    Opening compileAgain [] brokenSource ⟨[], .standard⟩ (some .standard) "in.x" "struct"
      [("in.x", utf8 "struct"), ("out.rs", [])] where
  understood := rfl
  read := by rfl
  cleared := by rfl

/-- The source is rejected after the output was opened, so the earlier
result is lost. -/
theorem kept_iff_of_failed_brokenSource :
    (run passingOn ["--cpp", "-o", "out.rs", "in.x"] [] brokenSource).1.exitCode =
        failureCode ∧
      (run passingOn ["--cpp", "-o", "out.rs", "in.x"] [] brokenSource).1.output = "" ∧
      (run passingOn ["--cpp", "-o", "out.rs", "in.x"] [] brokenSource).2.read "out.rs" =
        .ok [] ∧
      brokenSource.read "out.rs" = .ok (Text.utf8 "old") ∧
      (run passingOn ["--cpp", "-o", "out.rs", "in.x"] [] brokenSource).2.read "out.rs" ≠
        brokenSource.read "out.rs" := by
  have hexit : (run passingOn ["--cpp", "-o", "out.rs", "in.x"] [] brokenSource).1.exitCode =
      failureCode := by decide +kernel
  have hfailed : (run passingOn ["--cpp", "-o", "out.rs",
    "in.x"] [] brokenSource).1.exitCode ≠
      0 := by
    rw [hexit]
    decide
  obtain ⟨houtput, hfiles⟩ := kept_iff_of_failed hfailed
  obtain ⟨-, hopened, hkept⟩ := hfiles compileAgain "out.rs" (by rfl) (by rfl)
  have hkeeps : CommandKeepsFiles passingOn compileAgain [] brokenSource :=
    fun _ _ _ _ _ _ => rfl
  have hold : brokenSource.read "out.rs" = .ok (Text.utf8 "old") := by rfl
  obtain ⟨hempty, -, hleft⟩ := hopened _ _ _ _ _ opening_compileAgain
  refine ⟨hexit, houtput, ?_, hold, ?_⟩
  · rw [hleft]
    exact hempty
  · rw [Ne, (hkept hkeeps).2, hold, not_or, not_not]
    exact ⟨⟨_, _, _, _, _, opening_compileAgain⟩, by decide⟩

end CommandLine
end Xdr
