import Xdr.Proofs.Interface.Codec
import Xdr.Proofs.Interface.Structural
import Xdr.Proofs.Schema.Faults

/-!
# The limits of the sample interfaces

## Main Statements

* `SampleType.fault?_eq_some_iff` — the parts of a value are at fault as
  `Breach` says
* `SampleType.toBinary_error_iff_first_breach` — writing fails exactly on
  values that break a limit, and tells of the first part that does
-/

namespace Xdr

/-- A part of a value of the sample interfaces breaks its limit, and the
error tells how. -/
inductive Breach : Part → WireError → Prop where
  /-- A label of more than eight bytes. -/
  | label (text : String) (h : 8 < (Text.utf8 text).length) :
      Breach (.value (.text (some 8)) (.text text)) (.tooLong 8 (Text.utf8 text).length)
  /-- Another number of slots than three. -/
  | slots (items : List Value) (h : items.length ≠ 3) :
      Breach (.value (.fixedArray .int 3) (.list items)) (.wrongLength 3 items.length)
  /-- A digest of another length than four bytes. -/
  | digest (bytes : List UInt8) (h : bytes.length ≠ 4) :
      Breach (.value (.fixedBytes 4) (.bytes bytes)) (.wrongLength 4 bytes.length)
  /-- A history whose length is not a word. -/
  | history (items : List Value) (h : 4294967295 < items.length) :
      Breach (.value (.array .int none) (.list items)) (.tooLong 4294967295 items.length)
  /-- A text whose length is not a word. -/
  | text (text : String) (h : 4294967295 < (Text.utf8 text).length) :
      Breach (.value (.text none) (.text text)) (.tooLong 4294967295 (Text.utf8 text).length)
  /-- A union that lacks the arm that is selected. -/
  | arm (union arm : String) : Breach (.arm union arm none) (.missingArm union arm)

/-- The types that occur in the sample interfaces. -/
def Ty.isSample : Ty → Bool
  | .text limit => limit == none || limit == some 8
  | .fixedText _ | .bytes _ => false
  | .fixedBytes length => length == 4
  | .array item limit => item == .int && limit == none
  | .fixedArray item length => item == .int && length == 3
  | .optional item => item.isSample
  | _ => true

theorem Ty.item?_of_isSample {type item : Ty} (htype : type.isSample = true)
    (hitem : type.item? = some item) : item = .int := by
  cases type with
  | array other _ | fixedArray other _ =>
    cases hitem
    exact beq_iff_eq.mp (Bool.and_eq_true_iff.mp htype).1
  | _ => cases hitem

theorem Part.fault?_value_eq_some_iff {type : Ty} (htype : type.isSample = true)
    (value : Value)
    (error : WireError) :
    (Part.value type value).fault? = some error ↔ Breach (.value type value) error := by
  constructor
  · intro h
    cases value with
    | text text =>
      cases type with
      | text limit =>
        obtain ⟨hlong, rfl⟩ := overLimit?_eq_some_iff.mp h
        rcases (by simpa [Ty.isSample] using htype : limit = none ∨ limit = some 8)
          with rfl | rfl
        · exact .text text hlong
        · exact .label text hlong
      | fixedText length => cases htype
      | _ => cases h
    | bytes bytes =>
      cases type with
      | bytes limit => cases htype
      | fixedBytes length =>
        obtain ⟨hlength, rfl⟩ := wrongLength?_eq_some_iff.mp h
        obtain rfl : length = 4 := by simpa [Ty.isSample] using htype
        exact .digest bytes hlength
      | _ => cases h
    | list items =>
      cases type with
      | array item limit =>
        obtain ⟨hlong, rfl⟩ := overLimit?_eq_some_iff.mp h
        obtain ⟨rfl, rfl⟩ : item = .int ∧ limit = none := by simpa [Ty.isSample] using htype
        exact .history items hlong
      | fixedArray item length =>
        obtain ⟨hlength, rfl⟩ := wrongLength?_eq_some_iff.mp h
        obtain ⟨rfl, rfl⟩ : item = .int ∧ length = 3 := by simpa [Ty.isSample] using htype
        exact .slots items hlength
      | _ => cases h
    | _ => cases type <;> cases h
  · intro h
    cases h with
    | label text h | text text h => exact if_neg (Nat.not_le_of_lt h)
    | slots items h => exact if_neg h
    | digest bytes h => exact if_neg h
    | history items h => exact if_neg (Nat.not_le_of_lt h)

/-- Parts of values of sample types are of sample types. -/
theorem Schema.Holds.fault?_eq_some_iff {schema : Schema}
    (hschema : ∀ {name decl}, schema.find? name = some decl → ∀ component ∈ decl.components,
      component.type.isSample = true) {type value place part}
    (h : schema.Holds type value place part) (htype : type.isSample = true)
    (error : WireError) : part.fault? = some error ↔ Breach part error := by
  induction h with
  | self type value => exact Part.fault?_value_eq_some_iff htype value error
  | @item type item _ _ _ _ _ hitem _ _ ih =>
    obtain rfl : item = .int := Ty.item?_of_isSample htype hitem
    exact ih rfl
  | content _ ih => exact ih htype
  | field hdecl hfield _ ih =>
    exact ih (hschema hdecl _ (List.of_mem_zip (List.mem_of_getElem? hfield)).1)
  | tag hdecl _ ih => exact ih (hschema hdecl _ List.mem_cons_self)
  | @arm _ _ _ _ _ held _ _ _ =>
    cases held with
    | none =>
      constructor
      · rintro ⟨⟩
        exact .arm _ _
      · rintro ⟨⟩
        rfl
    | some value => constructor <;> rintro ⟨⟩
  | selected hdecl harm _ _ ih =>
    exact ih (hschema hdecl _ (List.mem_cons_of_mem _ (List.of_mem_zip harm).1))

namespace SampleType

theorem isSample_components (sample : SampleType) {name} {decl : TypeDef}
    (hdecl : sample.schema.find? name = some decl) :
    ∀ component ∈ decl.components, component.type.isSample = true := by
  refine Schema.forall_components_of_all (p := Ty.isSample) ?_ hdecl
  cases sample <;> rfl

theorem isSample_type (sample : SampleType) : sample.type.isSample = true := by
  cases sample <;> rfl

/-- The parts of a value are at fault as `Breach` says. -/
theorem fault?_eq_some_iff {sample : SampleType} {value place part}
    (h : sample.schema.Holds sample.type value place part) (error : WireError) :
    part.fault? = some error ↔ Breach part error :=
  h.fault?_eq_some_iff sample.isSample_components sample.isSample_type error

theorem fault?_eq_none_iff {sample : SampleType} {value place part}
    (h : sample.schema.Holds sample.type value place part) :
    part.fault? = none ↔ ∀ error, ¬ Breach part error := by
  rw [Option.eq_none_iff_forall_ne_some]
  exact forall_congr' fun error => not_congr (fault?_eq_some_iff h error)

/-- **Writing fails exactly on values that break a limit**, outside of arms
that are not selected, and tells of the first part that does. -/
theorem toBinary_error_iff_first_breach (sample : SampleType) {value : Value}
    (hvalue : sample.schema.HasType sample.type value) :
    ((∃ bytes, sample.toBinary value = .ok bytes) ↔
      ∀ place part, sample.schema.Holds sample.type value place part →
        ∀ error, ¬ Breach part error) ∧
    ∀ error, sample.toBinary value = .error error ↔
      ∃ place part, sample.schema.Holds sample.type value place part ∧ Breach part error ∧
        ∀ earlier other, sample.schema.Holds sample.type value earlier other →
        earlier < place → ∀ fault, ¬ Breach other fault := by
  have hfailure := hvalue.failure_eq_iff sample.wellFormed
  constructor
  · rw [toBinary, Output.exists_result_eq_ok, hfailure]
    exact forall₃_congr fun _ _ hpart => fault?_eq_none_iff hpart
  · intro error
    rw [toBinary, Output.result_eq_error, hfailure]
    refine exists₂_congr fun place part => and_congr_right fun hpart => ?_
    refine and_congr (fault?_eq_some_iff hpart error) ?_
    exact forall₃_congr fun _ _ hother => forall_congr' fun _ => fault?_eq_none_iff hother

/-- A list of one node, after which a node is left from before that lacks
the arm it selects. -/
def brokenAfterEnd : Value :=
  .record [.int 5,
    .union (.bool false) [.present (.record [.int 6, .union (.bool true) [.absent]])]]

theorem hasType_brokenAfterEnd : node.schema.HasType node.type brokenAfterEnd := by
  have hbroken := hasType_node 6 (hasType_chain true none (by simp))
  exact hasType_node 5 (hasType_chain false (some _) fun _ h =>
    Option.mem_some.mp h ▸ hbroken)

/-- The first fault of the wrong entries is the name of the first of them,
and the node after the end of a list is not looked at. -/
theorem toBinary_error_iff_first_breach_wrongEntries :
    (entry.schema.HasType entry.type wrongEntries ∧
      entry.toBinary wrongEntries = .error (.tooLong 8 12) ∧
      ∃ place part, entry.schema.Holds entry.type wrongEntries place part ∧
      Breach part (.tooLong 8 12) ∧
        ∀ earlier other, entry.schema.Holds entry.type wrongEntries earlier other →
        earlier < place → ∀ fault, ¬ Breach other fault) ∧
    node.schema.HasType node.type brokenAfterEnd ∧
      node.toBinary brokenAfterEnd = .ok [0, 0, 0, 5, 0, 0, 0, 0] ∧
      ∀ place part, node.schema.Holds node.type brokenAfterEnd place part →
      ∀ error, ¬ Breach part error := by
  have hentries : entry.toBinary wrongEntries = .error (.tooLong 8 12) := by decide
  have hnode : node.toBinary brokenAfterEnd = .ok [0, 0, 0, 5, 0, 0, 0, 0] := by decide
  exact ⟨⟨hasType_wrongEntries, hentries,
      ((toBinary_error_iff_first_breach entry hasType_wrongEntries).2 _).mp hentries⟩,
    hasType_brokenAfterEnd, hnode,
      (toBinary_error_iff_first_breach node hasType_brokenAfterEnd).1.mp ⟨_, hnode⟩⟩

end SampleType
end Xdr
