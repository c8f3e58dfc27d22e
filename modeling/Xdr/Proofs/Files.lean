import Xdr.Files.Host
import Xdr.Proofs.Table

/-!
# Reading what was written

A path leads to the same file before and after that file is written, even if
the way there goes through other directories and back, or the file is new.

## Main Statements

* `Files.exists_of_target` — how a path leads to what is written under it
* `Files.walk_insert` — a new content blocks no way
* `Files.read_write` — a file that was written has the new content, and a
  device has none
* `Files.find?_write` — any other file keeps its content
-/

namespace Xdr

open Files Table Xdr.Path

namespace Files

variable {files : Files} {place steps : List String} {name text : String}

/-! ### Directories -/

theorem isDirectory_iff {path} :
    files.isDirectory path = true ↔
      ∃ key ∈ files.map Prod.fst, (path ++ "/").toList.isPrefixOf key.toList = true := by
  simp [isDirectory]

theorem isDirectory_insert {path} (h : files.isDirectory path = true) (name : String)
    (bytes : List UInt8) : isDirectory (files.insert name bytes) path = true := by
  obtain ⟨key, hkey, hbelow⟩ := isDirectory_iff.mp h
  exact isDirectory_iff.mpr ⟨key, mem_keys_insert.mpr (.inr hkey), hbelow⟩

/-- A file may be written under a name that no directory has. -/
def Free (files : Files) (name : String) : Prop :=
  files.isDirectory name = true → (files.find? name).isSome = true

theorem node?_below (hbelow : below? place = some steps) (hsteps : steps ≠ []) :
    files.node? place =
      if (files.find? (join steps)).isSome then some (.file (join steps))
      else if files.isDirectory (join steps) then some .directory
      else none := by
  obtain ⟨step, rest, rfl⟩ := List.exists_cons_of_ne_nil hsteps
  rw [node?, hbelow]

theorem systemNode?_ne_file (place : List String) (name : String) :
    systemNode? place ≠ some (.file name) := by
  unfold systemNode?
  repeat' split
  all_goals simp

/-- A directory stays one when a file is written under a free name. -/
theorem node?_insert_of_directory (hfree : files.Free name) (bytes : List UInt8)
    (h : files.node? place = some .directory) :
    node? (files.insert name bytes) place = some .directory := by
  cases hbelow : below? place with
  | none =>
    rw [node?, hbelow] at h ⊢
    exact h
  | some steps =>
    by_cases hsteps : steps = []
    · rw [node?, hbelow, hsteps]
    · rw [node?_below hbelow hsteps] at h ⊢
      split at h
      · cases h
      · next hnone =>
        split at h
        · next hdirectory =>
          -- A free name that is a directory is a file too, and would have been found as one.
          have hne : join steps ≠ name := fun heq => hnone (heq ▸ hfree (heq ▸ hdirectory))
          rw [find?_insert, if_neg hne, if_neg hnone,
            if_pos (isDirectory_insert hdirectory name bytes)]
        · cases h

theorem node?_insert_self (hbelow : below? place = some steps) (hsteps : steps ≠ [])
    (bytes : List UInt8) :
    node? (files.insert (join steps) bytes) place = some (.file (join steps)) := by
  rw [node?_below hbelow hsteps, find?_insert, if_pos rfl]
  rfl

/-! ### Ways -/

theorem enter_insert (hfree : files.Free name) (bytes : List UInt8) {next step}
    (h : files.enter place step = .ok (next, .directory)) :
    enter (files.insert name bytes) place step = .ok (next, .directory) := by
  unfold enter at h ⊢
  split at h
  · next hdot => rw [if_pos hdot, h]
  · next hdot =>
    rw [if_neg hdot]
    split at h
    · cases h
    · next hshort =>
      rw [if_neg hshort]
      cases hnode : files.node? (stepFrom place step) with
      | none => simp [hnode] at h
      | some node =>
        simp only [hnode, Except.ok.injEq, Prod.mk.injEq] at h
        rw [h.2] at hnode
        rw [node?_insert_of_directory hfree bytes hnode, ← h.1]

theorem walk_insert (hfree : files.Free name) (bytes : List UInt8) {parent}
    (h : files.walk place steps = .ok parent) :
    walk (files.insert name bytes) place steps = .ok parent := by
  induction steps generalizing place with
  | nil => exact h
  | cons step steps ih =>
    rw [walk] at h ⊢
    cases henter : files.enter place step with
    | error error => simp [henter] at h
    | ok found =>
      obtain ⟨next, node⟩ := found
      cases node with
      | directory =>
        rw [henter] at h
        rw [enter_insert hfree bytes henter]
        exact ih h
      | _ => simp [henter] at h

/-- The way that a path goes: the steps in front of the last one lead to
`parent`. -/
structure Way (files : Files) (text : String) (parent : List String)
    (last : String) : Prop where
  leads : ∃ place,
    start text = .ok place ∧ files.walk place (ofString text).steps.dropLast = .ok parent
  ends : (ofString text).steps.getLast? = some last
  proper : (last == "." || last == ".." || (ofString text).slash) = false

/-- What is written under a path stands at the end of its way, or may stand
there. -/
theorem exists_of_target {node} (h : files.target text = .ok node) :
    ∃ parent last, files.Way text parent last ∧
      ((∃ next, files.enter parent last = .ok (next, node)) ∨
        files.enter parent last = .error .notFound ∧
          ∃ steps, below? (stepFrom parent last) = some steps ∧
          node = .file (join steps)) := by
  unfold target at h
  cases hstart : start text with
  | error error => simp [hstart, bind, Except.bind] at h
  | ok place =>
    simp only [hstart, bind, Except.bind] at h
    cases hlast : (ofString text).steps.getLast? with
    | none => simp [hlast, throw, throwThe, MonadExceptOf.throw] at h
    | some last =>
      simp only [hlast] at h
      cases hwalk : files.walk place (ofString text).steps.dropLast with
      | error error => simp [hwalk] at h
      | ok parent =>
        simp only [hwalk] at h
        split at h
        · cases h
        · next hproper =>
          refine ⟨parent, last, ⟨⟨place, hstart, hwalk⟩, hlast, by simpa using hproper⟩, ?_⟩
          cases henter : files.enter parent last with
          | ok found =>
            obtain ⟨next, found⟩ := found
            rw [henter] at h
            cases found <;> cases h <;> exact .inl ⟨next, rfl⟩
          | error error =>
            rw [henter] at h
            cases error with
            | notFound =>
              refine .inr ⟨rfl, ?_⟩
              cases hbelow : below? (stepFrom parent last) with
              | none =>
                simp only [hbelow] at h
                cases h
              | some steps =>
                simp only [hbelow] at h
                cases h
                exact ⟨steps, rfl, rfl⟩
            | _ => cases h

namespace Way

variable {text last : String} {parent : List String}

theorem insert (h : files.Way text parent last) (hfree : files.Free name)
    (bytes : List UInt8) : Way (files.insert name bytes) text parent last := by
  obtain ⟨place, hstart, hwalk⟩ := h.leads
  exact ⟨⟨place, hstart, walk_insert hfree bytes hwalk⟩, h.ends, h.proper⟩

theorem find (h : files.Way text parent last) {next node}
    (henter : files.enter parent last = .ok (next, node)) : files.find text = .ok node := by
  obtain ⟨place, hstart, hwalk⟩ := h.leads
  have hslash : (ofString text).slash = false := (Bool.or_eq_false_iff.mp h.proper).2
  simp only [Files.find, hstart, h.ends, hwalk, henter, hslash, bind, Except.bind]
  rfl

/-- The last step leads to what stands there, unless its name is too long. -/
theorem enter_eq (h : files.Way text parent last) :
    files.enter parent last =
      if stepLimit < last.utf8ByteSize then .error .nameTooLong
      else (files.node? (stepFrom parent last)).elim (.error .notFound)
        fun node => .ok (stepFrom parent last, node) := by
  rw [enter, if_neg (by simpa using (Bool.or_eq_false_iff.mp h.proper).1)]
  cases files.node? (stepFrom parent last) <;> rfl

end Way

theorem exists_of_node?_file (h : files.node? place = some (.file name)) :
    ∃ steps, below? place = some steps ∧ steps ≠ [] ∧ name = join steps ∧
    files.Free name := by
  cases hbelow : below? place with
  | none =>
    rw [node?, hbelow] at h
    exact absurd h (systemNode?_ne_file place name)
  | some steps =>
    by_cases hsteps : steps = []
    · rw [node?, hbelow, hsteps] at h
      cases h
    · rw [node?_below hbelow hsteps] at h
      split at h
      · next hfound =>
        cases h
        exact ⟨steps, rfl, hsteps, rfl, fun _ => hfound⟩
      · split at h <;> cases h

theorem free_of_node?_none (h : files.node? place = none)
    (hbelow : below? place = some steps) : steps ≠ [] ∧ files.Free (join steps) := by
  have hsteps : steps ≠ [] := by
    intro hsteps
    rw [node?, hbelow, hsteps] at h
    cases h
  refine ⟨hsteps, fun hdirectory => ?_⟩
  rw [node?_below hbelow hsteps, if_pos hdirectory] at h
  split at h <;> cases h

/-- A file that is written stands at the end of the way to it, and its name
is free. -/
theorem exists_of_target_file (h : files.target text = .ok (.file name)) :
    ∃ parent last steps, files.Way text parent last ∧ ¬ stepLimit < last.utf8ByteSize ∧
      below? (stepFrom parent last) = some steps ∧ steps ≠ [] ∧ name = join steps ∧
      files.Free name := by
  obtain ⟨parent, last, hway, hend⟩ := exists_of_target h
  by_cases hlong : stepLimit < last.utf8ByteSize
  · simp [hway.enter_eq, hlong] at hend
  · rw [hway.enter_eq, if_neg hlong] at hend
    refine ⟨parent, last, ?_⟩
    cases hnode : files.node? (stepFrom parent last) with
    | some node =>
      obtain rfl : node = .file name := by simpa [hnode] using hend
      obtain ⟨steps, hsteps⟩ := exists_of_node?_file hnode
      exact ⟨steps, hway, hlong, hsteps⟩
    | none =>
      obtain ⟨steps, hbelow, hname⟩ : ∃ steps, below? (stepFrom parent last) = some steps ∧
          Node.file name = .file (join steps) := by simpa [hnode] using hend
      obtain ⟨hsteps, hfree⟩ := free_of_node?_none hnode hbelow
      cases hname
      exact ⟨steps, hway, hlong, hbelow, hsteps, rfl, hfree⟩

/-- A file that was written is found under the same path. -/
theorem find_insert (h : files.target text = .ok (.file name)) (bytes : List UInt8) :
    find (files.insert name bytes) text = .ok (.file name) := by
  obtain ⟨parent, last, steps, hway, hshort, hbelow, hsteps, rfl, hfree⟩ :=
    exists_of_target_file h
  have hway' := hway.insert hfree bytes
  have henter := hway'.enter_eq
  rw [if_neg hshort, node?_insert_self hbelow hsteps] at henter
  exact hway'.find henter

theorem find_of_target_device {device} (h : files.target text = .ok (.device device)) :
    files.find text = .ok (.device device) := by
  obtain ⟨parent, last, hway, ⟨next, henter⟩ | ⟨-, steps, -, hname⟩⟩ := exists_of_target h
  · exact hway.find henter
  · cases hname

/-! ### Contents -/

/-- **Read after write.**  A file that was written has the new content, and
a device has none. -/
theorem read_write {after : Files} {bytes : List UInt8}
    (h : files.write text bytes = .ok after) :
    (∃ name, files.target text = .ok (.file name) ∧ after.read text = .ok bytes) ∨
      after = files ∧ after.read text = .ok [] := by
  unfold write at h
  split at h
  · next name htarget =>
    cases h
    refine .inl ⟨name, htarget, ?_⟩
    simp only [read, find_insert htarget, find?_insert, if_pos, Option.getD_some]
  · next htarget =>
    split at h
    · cases h
      refine .inr ⟨rfl, ?_⟩
      rw [read, find_of_target_device htarget]
    · cases h
  · cases h
  · next device _ hterminal htarget =>
    cases h
    refine .inr ⟨rfl, ?_⟩
    rw [read, find_of_target_device htarget]
    cases device <;> simp_all
  · cases h
  · cases h
  · cases h

/-- Any other file keeps its content. -/
theorem find?_write {after other bytes} (h : files.write text bytes = .ok after)
    (hother : files.target text ≠ .ok (.file other)) :
    after.find? other = files.find? other := by
  unfold write at h
  split at h
  · next name htarget =>
    cases h
    rw [find?_insert, if_neg]
    rintro rfl
    exact hother htarget
  · split at h <;> cases h
    rfl
  all_goals cases h
  rfl

end Files
end Xdr
