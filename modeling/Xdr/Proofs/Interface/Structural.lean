import Xdr.Proofs.Interface.Sample
import Xdr.Proofs.Schema.Structural

/-!
# The structural form of the sample interfaces

The declarations of both sample interfaces are definite, so every value of
their types is read back from its structural form.

## Main Statements

* `SampleType.fromStructural_toStructural` — reading the structural form of
  a value
-/

namespace Xdr

theorem Schema.definite_of_entries {schema : Schema}
    (hnodup : ∀ entry ∈ schema, entry.2.keys.Nodup)
    (hcomponents : ∀ entry ∈ schema, ∀ component ∈ entry.2.components,
      component.type.isDefinite = true) : schema.Definite := by
  intro name decl hdecl
  have hentry := Table.mem_of_find? hdecl
  exact ⟨hnodup _ hentry, hcomponents _ hentry⟩

theorem Calculator.definite : Calculator.schema.Definite :=
  Schema.definite_of_entries (by decide) (by decide)

theorem Directory.definite : Directory.schema.Definite :=
  Schema.definite_of_entries (by decide) (by decide)

namespace SampleType

/-- The structural form of a value. -/
def toStructural (sample : SampleType) (value : Value) : Json :=
  sample.schema.toJson sample.type value

/-- The value that a structural value stands for. -/
def fromStructural (sample : SampleType) (json : Json) : Except WireError Value :=
  sample.schema.ofJson sample.type json

theorem definite (sample : SampleType) : sample.schema.Definite := by
  cases sample <;> first | exact Calculator.definite | exact Directory.definite

theorem isDefinite_type (sample : SampleType) : sample.type.isDefinite = true := by
  cases sample <;> rfl

/-- **Reading the structural form of a value** whose binary numbers are
finite.  It comes back without its stale arms, also where it could not be
written, and a settled value comes back as it was. -/
theorem fromStructural_toStructural (sample : SampleType) {value : Value}
    (hvalue : sample.schema.HasType sample.type value) (hfinite : value.isFinite = true) :
    sample.fromStructural (sample.toStructural value) =
      .ok (sample.schema.clear sample.type value) ∧
      (sample.schema.settled sample.type value = true →
        sample.fromStructural (sample.toStructural value) = .ok value) := by
  have hread : sample.fromStructural (sample.toStructural value) =
      .ok (sample.schema.clear sample.type value) :=
    Schema.ofJson_toJson sample.definite hvalue hfinite sample.isDefinite_type
  refine ⟨hread, fun hsettled => ?_⟩
  rw [hread, hvalue.clear_eq_self hsettled]

/-- An entry whose name is too long, which has two slots in place of three
and five bytes of content. -/
def wrongEntry (figure next : Value) : Value :=
  .record [.text "far too long", .uhyper 0xffffffffffffffff, .hyper (-5),
    .list [.int 1, .int 2], .list [.int 7], .bytes [1, 2, 3, 4, 5], figure, next,
    .present (.int 70)]

theorem hasType_wrongEntry {figure next} (hfigure : entry.schema.HasType shape.type figure)
    (hnext : entry.schema.HasType list.type next) :
    entry.schema.HasType entry.type (wrongEntry figure next) := by
  have hints : ∀ {numbers : List Int32}, ∀ value ∈ numbers.map Value.int,
      entry.schema.HasType .int value := by
    intro numbers value hvalue
    obtain ⟨number, -, rfl⟩ := List.mem_map.mp hvalue
    exact .int number
  refine .record rfl rfl ?_
  simp only [List.zip_cons_cons, List.zip_nil_left, List.forall_mem_cons, List.not_mem_nil,
    false_implies, implies_true, and_true]
  exact ⟨.text _ _, .uhyper _, .hyper _, .fixedArray _ (@hints [1, 2]), .array _ (@hints [7]),
    .fixedBytes _ _, hfigure, hnext, .present (.int 70)⟩

/-- A square, beside which a circle is left from before. -/
def staleShape (tile : Option Value) : Value :=
  .union (.member 2) [.present (.record [.double 0x3ff0000000000001]), Value.ofOption tile]

theorem hasType_staleShape {tile}
    (htile : ∀ value ∈ tile, entry.schema.HasType square.type value) :
    entry.schema.HasType shape.type (staleShape tile) := by
  have hcircle : entry.schema.HasType circle.type (.record [.double 0x3ff0000000000001]) := by
    refine .record rfl rfl ?_
    simpa using .double _
  refine @Schema.HasType.union _ "shape" _ _ [some _, tile] rfl (.member rfl rfl) rfl ?_
  simpa using ⟨hcircle, htile⟩

/-- Two such entries: the figure of the first has a side of 32 bits, and
that of the second lacks the arm that is selected. -/
def wrongEntries : Value :=
  wrongEntry (staleShape (some (.record [.float 0x3dcccccd, .bool true])))
    (.present (wrongEntry (staleShape none) .absent))

theorem hasType_wrongEntries : entry.schema.HasType entry.type wrongEntries := by
  have hsquare : entry.schema.HasType square.type (.record [.float 0x3dcccccd,
    .bool true]) := by
    refine .record rfl rfl ?_
    simpa using ⟨.float _, .bool _⟩
  have hmissing : entry.schema.HasType shape.type (staleShape none) :=
    hasType_staleShape (by simp)
  have hshape := hasType_staleShape fun value hvalue => Option.mem_some.mp hvalue ▸ hsquare
  exact hasType_wrongEntry hshape (.present (hasType_wrongEntry hmissing (.absent _)))

/-- They cannot be written, and come back without the circles. -/
theorem fromStructural_toStructural_wrongEntries :
    entry.schema.HasType entry.type wrongEntries ∧ wrongEntries.isFinite = true ∧
      entry.toBinary wrongEntries = .error (.tooLong 8 12) ∧
      entry.fromStructural (entry.toStructural wrongEntries) =
        .ok (wrongEntry (.union (.member 2) [.absent,
          .present (.record [.float 0x3dcccccd, .bool true])])
          (.present (wrongEntry (.union (.member 2) [.absent, .absent]) .absent))) := by
  have hfinite : wrongEntries.isFinite = true := by decide
  exact ⟨hasType_wrongEntries, hfinite, by decide,
    (fromStructural_toStructural entry hasType_wrongEntries hfinite).1⟩

end SampleType
end Xdr
