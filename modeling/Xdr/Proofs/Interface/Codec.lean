import Xdr.Proofs.Interface.Sample
import Xdr.Proofs.Schema.Canonical
import Xdr.Proofs.Table

/-!
# The codec of the sample interfaces

Both sample interfaces are well-formed schemas, so what holds of every such
schema holds of each of their types.

## Main Statements

* `SampleType.wellFormed` — the interfaces are well-formed
* `SampleType.fromBinary_toBinary_append` — reading what was written
* `SampleType.toBinary_fromBinary_eq_zeroPadding` — writing what was read
-/

namespace Xdr

open Schema

/-- A schema is productive if a rank decreases from each of its entries. -/
theorem Schema.productive_of_entries {schema : Schema} (rank : String → Nat)
    (hle : ∀ name, rank name ≤ schema.length)
    (hlt : ∀ entry ∈ schema, ∀ name ∈ entry.2.leading, rank name < rank entry.1) :
    schema.Productive rank where
  rank_le := hle
  rank_lt hdecl := hlt _ (Table.mem_of_find? hdecl)

/-- The names of the arms, if a declaration is a union. -/
def TypeDef.armNames : TypeDef → List String
  | .union decl => decl.arms.map Component.name
  | _ => []

theorem Schema.wellFormed_of_entries {schema : Schema} {rank}
    (hproductive : schema.Productive rank)
    (hnodup : ∀ entry ∈ schema, entry.2.armNames.Nodup) : schema.WellFormed where
  productive := ⟨rank, hproductive⟩
  nodup_arms hdecl := hnodup _ (Table.mem_of_find? hdecl)

/-- No declaration of the calculator interface leads to a name before a byte
is taken. -/
theorem Calculator.wellFormed : Calculator.schema.WellFormed := by
  refine wellFormed_of_entries (productive_of_entries (fun _ => 0) ?_ ?_) ?_
  · exact fun _ => Nat.zero_le _
  · decide
  · decide

/-- In the directory interface only a shape leads to other names before a
byte is taken. -/
theorem Directory.wellFormed : Directory.schema.WellFormed := by
  refine wellFormed_of_entries
    (productive_of_entries (fun name => if name = "shape" then 1 else 0) ?_ ?_) ?_
  · intro name
    split <;> decide
  · decide
  · decide

namespace SampleType

theorem wellFormed (sample : SampleType) : sample.schema.WellFormed := by
  cases sample <;> first | exact Calculator.wellFormed | exact Directory.wellFormed

theorem fromBinary_eq_ok {sample : SampleType} {bytes rest value} :
    sample.fromBinary bytes = .ok (value, rest) ↔
      sample.schema.decode sample.type bytes = (.ok value, rest) := by
  rw [fromBinary]
  rcases sample.schema.decode sample.type bytes with ⟨error | found, left⟩ <;> simp

/-- **Reading what was written**, with any bytes after it.  A value that can
be written comes back without its stale arms, exactly the bytes written are
taken, and a settled value comes back as it was. -/
theorem fromBinary_toBinary_append (sample : SampleType) {value : Value} {bytes : List UInt8}
    (hvalue : sample.schema.HasType sample.type value)
    (hbytes : sample.toBinary value = .ok bytes) (rest : List UInt8) :
    sample.fromBinary (bytes ++ rest) = .ok (sample.schema.clear sample.type value, rest) ∧
      (sample.schema.settled sample.type value = true →
        sample.fromBinary (bytes ++ rest) = .ok (value, rest)) := by
  have hread :
    sample.fromBinary (bytes ++ rest) = .ok (sample.schema.clear sample.type value, rest) :=
    fromBinary_eq_ok.mpr (Schema.decode_encode sample.wellFormed hvalue hbytes rest)
  refine ⟨hread, fun hsettled => ?_⟩
  rw [hread, hvalue.clear_eq_self hsettled]

/-- A list of two nodes, at whose end a third one is left from before. -/
def staleNode : Value :=
  .record [.int 5, .union (.bool true) [.present (.record [.int 6,
    .union (.bool false) [.present (.record [.int 7, .union (.bool false) [.absent]])]])]]

theorem hasType_node (number : Int32) {next} (hnext : node.schema.HasType chain.type next) :
    node.schema.HasType node.type (.record [.int number, next]) := by
  refine .record rfl rfl ?_
  simpa using ⟨.int number, hnext⟩

theorem hasType_chain (more : Bool) (held : Option Value)
    (hheld : ∀ value ∈ held, node.schema.HasType node.type value) :
    node.schema.HasType chain.type (.union (.bool more) [Value.ofOption held]) := by
  refine @Schema.HasType.union _ _ _ _ [held] rfl (.bool more) rfl ?_
  intro pair hpair
  obtain rfl := List.mem_singleton.mp hpair
  exact hheld

theorem staleNode_hasType : node.schema.HasType node.type staleNode := by
  have hlast := hasType_node 7 (hasType_chain false none (by simp))
  have hsecond :=
    hasType_node 6 (hasType_chain false (some _) fun _ h => Option.mem_some.mp h ▸ hlast)
  exact hasType_node 5 (hasType_chain true (some _) fun _ h => Option.mem_some.mp h ▸ hsecond)

/-- The third node is not written, and does not come back. -/
theorem fromBinary_toBinary_staleNode :
    node.schema.HasType node.type staleNode ∧
      node.toBinary staleNode = .ok [0, 0, 0, 5, 0, 0, 0, 1, 0, 0, 0, 6, 0, 0, 0, 0] ∧
      node.fromBinary ([0, 0, 0, 5, 0, 0, 0, 1, 0, 0, 0, 6, 0, 0, 0, 0] ++ [9]) =
        .ok (.record [.int 5,
          .union (.bool true) [.present (.record [.int 6, .union (.bool false) [.absent]])]],
          [9]) := by
  have hbytes : node.toBinary staleNode = .ok [0, 0, 0, 5, 0, 0, 0, 1, 0, 0, 0, 6, 0,
    0, 0, 0] := by
    decide
  exact ⟨staleNode_hasType, hbytes,
    (fromBinary_toBinary_append node staleNode_hasType hbytes [9]).1⟩

/-- **Writing what was read.**  Whatever is read can be written, as the
bytes that were taken with zeros for padding: byte for byte, if the padding
was zero.  These are whole words, and the same value is read from them. -/
theorem toBinary_fromBinary_eq_zeroPadding (sample : SampleType) {bytes rest : List UInt8}
    {value : Value} (h : sample.fromBinary bytes = .ok (value, rest)) :
    ∃ taken canonical, bytes = taken ++ rest ∧ sample.toBinary value = .ok canonical ∧
      canonical.length = bytes.length - rest.length ∧ 4 ∣ canonical.length ∧
      (sample.schema.paddingMarks sample.type value).length = taken.length ∧
      canonical = Wire.zeroPadding (sample.schema.paddingMarks sample.type value) taken ∧
      ((∀ pair ∈ (sample.schema.paddingMarks sample.type value).zip taken,
        pair.1 = true → pair.2 = 0) → canonical = taken) ∧
      sample.fromBinary (canonical ++ rest) = .ok (value, rest) := by
  obtain ⟨taken, canonical, rfl, hdvd, hencode, hcanonical, hread⟩ :=
    Schema.exists_canonical_of_decode sample.wellFormed (fromBinary_eq_ok.mp h)
  refine ⟨taken, canonical, rfl, hencode, ?_, ?_, hcanonical.length_eq,
    hcanonical.eq_zeroPadding, hcanonical.eq_self, fromBinary_eq_ok.mpr hread⟩
  · rw [hcanonical.length_canonical, List.length_append, Nat.add_sub_cancel]
  · rwa [hcanonical.length_canonical]

/-- A message with a text of three bytes, whose padding is not zero. -/
theorem wireForm_filled :
    msg.schema.WireForm msg.type (.union (.int 1) [.absent, .present (.text "abc")])
    [0, 0, 0, 1, 0, 0, 0, 3, 97, 98, 99, 255] := by
  have hlen : (Text.utf8 "abc").length = (3 : UInt32).toNat := by decide
  have htext : msg.schema.WireForm (.text none) (.text "abc") [0, 0, 0, 3, 97, 98, 99, 255] :=
    @Schema.WireForm.text _ none 3 "abc" [255] nofun hlen rfl
  exact @Schema.WireForm.union _ "Msg" _ (.int 1) (.text "abc") ⟨"sval", .text none⟩ _ _ rfl
    (.int 1) rfl htext

/-- It is written with padding that is zero. -/
theorem toBinary_fromBinary_filled :
    ∃ value, msg.fromBinary [0, 0, 0, 1, 0, 0, 0, 3, 97, 98, 99, 255, 9] = .ok (value, [9]) ∧
      msg.toBinary value = .ok [0, 0, 0, 1, 0, 0, 0, 3, 97, 98, 99, 0] ∧
      msg.fromBinary [0, 0, 0, 1, 0, 0, 0, 3, 97, 98, 99, 0, 9] = .ok (value, [9]) := by
  obtain ⟨rank, hrank⟩ := msg.wellFormed.productive
  have hread : msg.fromBinary [0, 0, 0, 1, 0, 0, 0, 3, 97, 98, 99, 255, 9] =
      .ok (.union (.int 1) [.absent, .present (.text "abc")], [9]) :=
    fromBinary_eq_ok.mpr ((Schema.decode_eq_ok hrank).mpr ⟨_, rfl, wireForm_filled⟩)
  refine ⟨_, hread, ?_⟩
  obtain ⟨taken, canonical, htaken, hwrite, _, _, _, hcanonical, _, hback⟩ :=
    toBinary_fromBinary_eq_zeroPadding msg hread
  obtain rfl : taken = [0, 0, 0, 1, 0, 0, 0, 3, 97, 98, 99, 255] :=
    List.append_cancel_right htaken.symm
  obtain rfl : canonical = [0, 0, 0, 1, 0, 0, 0, 3, 97, 98, 99, 0] := by
    rw [hcanonical]
    decide
  exact ⟨hwrite, hback⟩

end SampleType
end Xdr
