import Xdr.Proofs.Interface.Structural
import Xdr.Proofs.Schema.Keys

/-!
# The keys that the sample types look at

## Main Statements

* `SampleType.fromStructural_determined_by_keys` — what an object stands for
  depends on the keys that matter
-/

namespace Xdr.SampleType

/-- **What an object stands for depends on the keys that matter.**  A record
is read from the names of its fields.  A union is read from the name of its
discriminant, be it given or the default, and then from that of the arm
which the discriminant selects.  Two objects that have the same under these
keys, or both nothing, give the same value or the same fault, whatever their
order and their other keys. -/
theorem fromStructural_determined_by_keys (sample : SampleType) {name : String}
    (htype : sample.type = .named name) (members others : Table Json) :
    (∀ fields, sample.schema.find? name = some (.record fields) →
      sample.fromStructural (.object members) =
          (fields.mapM fun field =>
            sample.schema.field members field.type field.name).map .record ∧
        ((∀ field ∈ fields, members.find? field.name = others.find? field.name) →
          sample.fromStructural (.object members) = sample.fromStructural (.object others))) ∧
    (∀ decl, sample.schema.find? name = some (.union decl) →
      sample.fromStructural (.object members) =
          ((sample.schema.field members decl.tag.type decl.tag.name).bind fun tag =>
            (sample.schema.arms members decl tag).map (.union tag)) ∧
        (members.find? decl.tag.name = others.find? decl.tag.name →
          (∀ tag arm, sample.schema.field members decl.tag.type decl.tag.name = .ok tag →
            decl.select tag = some arm → members.find? arm = others.find? arm) →
          sample.fromStructural (.object members) =
            sample.fromStructural (.object others))) := by
  rw [fromStructural, fromStructural, htype]
  refine ⟨fun fields hdecl => ⟨Schema.ofJson_record hdecl, fun hkeys => ?_⟩,
    fun decl hdecl => ⟨Schema.ofJson_union hdecl, fun htag harm => ?_⟩⟩
  · exact Schema.ofJson_record_congr hdecl hkeys
  · exact Schema.ofJson_union_congr hdecl htag harm

/-- A point whose keys stand in another order among others, and three
messages.  The first message has a number in the shape of a text and a deep
key of its own beside the text it selects.  The other two give no kind, so
that they select the number: one gives nothing at all, the other a text in
the shape of a number. -/
theorem fromStructural_determined_by_keys_point_msg :
    point.fromStructural (.object [("x", .int 1), ("y", .int 2)]) =
      point.fromStructural (.object [("z", .array [.object []]), ("y", .int 2),
        ("x", .int 1)]) ∧
    msg.fromStructural (.object [("kind", .int 1), ("sval", .string "hi")]) =
      msg.fromStructural (.object [("ival", .string "no number"),
        ("deep", .array [.array [.array []]]), ("sval", .string "hi"), ("kind", .int 1)]) ∧
    msg.fromStructural (.object []) = msg.fromStructural (.object [("sval", .int 5)]) := by
  refine ⟨?_, ?_, ?_⟩
  · refine ((fromStructural_determined_by_keys point rfl _ _).1
      [⟨"x", .int⟩, ⟨"y", .int⟩] rfl).2 ?_
    simp only [List.forall_mem_cons, List.not_mem_nil, false_implies, implies_true, and_true]
    exact ⟨rfl, rfl⟩
  · refine ((fromStructural_determined_by_keys msg rfl _ _).2 _ rfl).2 rfl ?_
    rintro tag arm ⟨⟩ ⟨⟩
    rfl
  · refine ((fromStructural_determined_by_keys msg rfl _ _).2 _ rfl).2 rfl ?_
    rintro tag arm ⟨⟩ ⟨⟩
    rfl

end Xdr.SampleType
