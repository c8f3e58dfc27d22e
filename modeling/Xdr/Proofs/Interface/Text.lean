import Xdr.Proofs.Interface.Codec
import Xdr.Proofs.Interface.Structural
import Xdr.Proofs.Schema.Text

/-!
# The calculator interface as text

No binary number occurs in the calculator interface, so its values come back
from their texts up to the depth of nesting that is read.  A list of nodes
reaches it, since each node is an object inside an object.

## Main Statements

* `Calculator.depth_toJson` — a list of nodes nests twice as many objects as
  it has elements
* `SampleType.fromText_toText` — reading the text of a value of the
  calculator interface
-/

namespace Xdr

open Json List

namespace Calculator

mutual

/-- The elements of a list of nodes, from its first node on. -/
def elements : Value → List Value
  | .record [value, next] => value :: following next
  | _ => []

/-- The elements after a node, up to the end of the list. -/
def following : Value → List Value
  | .union (.bool true) [.present node] => elements node
  | _ => []

end

theorem floatless : schema.Floatless := by
  intro name decl
  exact Schema.forall_components_of_all (p := Ty.isFloatless) rfl

/-- A node is an object around what follows it. -/
theorem depth_node (number : Int32) (next : Value) :
    (schema.toJson (.named "node") (.record [.int number, next])).depth =
      (schema.toJson (.named "chain") next).depth + 1 := by
  have hform : schema.toJson (.named "node") (.record [.int number, next]) =
      .object [("v", .int number.toInt), ("next", schema.toJson (.named "chain") next)] := rfl
  rw [hform, depth, depthMembers, depthMembers, depthMembers, Nat.max_zero]
  exact congrArg (· + 1) (Nat.zero_max _)

/-- The end of a list is an object of its own. -/
theorem depth_chain_end (more : Bool) (held : Option Value)
    (hend : more = true → held = none) :
    (schema.toJson (.named "chain") (.union (.bool more) [Value.ofOption held])).depth =
      1 := by
  cases more with
  | false => rfl
  | true => rw [hend rfl]; rfl

/-- What follows a node is an object around the next one. -/
theorem depth_chain_more (node : Value) :
    (schema.toJson (.named "chain") (.union (.bool true) [.present node])).depth =
      (schema.toJson (.named "node") node).depth + 1 := by
  have hform : schema.toJson (.named "chain") (.union (.bool true) [.present node]) =
      .object [("more", .bool true), ("n", schema.toJson (.named "node") node)] := rfl
  rw [hform, depth, depthMembers, depthMembers, depthMembers, Nat.max_zero]
  exact congrArg (· + 1) (Nat.zero_max _)

/-- **A list of nodes nests twice as many objects as it has elements**, and
what follows a node one more. -/
theorem depth_toJson {type : Ty} {value : Value} (h : schema.HasType type value) :
    (type = .named "node" → (schema.toJson type value).depth = 2 * (elements value).length) ∧
      (type = .named "chain" →
        (schema.toJson type value).depth = 2 * (following value).length + 1) := by
  induction h with
  | member hdecl _ =>
    constructor <;> rintro ⟨⟩ <;> cases hdecl
  | @record _ _ values hdecl hlen hfields ih =>
    constructor
    · rintro ⟨⟩
      cases hdecl
      obtain ⟨number, next, rfl⟩ : ∃ number next, values = [number, next] :=
        length_eq_two.mp hlen.symm
      have hnumber : schema.HasType .int number := hfields (⟨"v", .int⟩, number) (by simp)
      have hnext :
        (schema.toJson (.named "chain") next).depth = 2 * (following next).length + 1 :=
        (ih (⟨"next", .named "chain"⟩, next) (by simp)).2 rfl
      cases hnumber with
      | int number =>
        rw [depth_node, hnext, elements, length_cons]
        omega
    · rintro ⟨⟩
      cases hdecl
  | @union _ _ _ held hdecl htag hlen _ _ iharms =>
    constructor
    · rintro ⟨⟩
      cases hdecl
    · rintro ⟨⟩
      cases hdecl
      obtain ⟨place, rfl⟩ : ∃ place, held = [place] := length_eq_one_iff.mp hlen.symm
      cases htag with
      | bool more =>
        cases more with
        | false => exact depth_chain_end false place (fun h => by cases h)
        | true =>
          cases place with
          | none => exact depth_chain_end true none fun _ => rfl
          | some node =>
            have hnode :
              (schema.toJson (.named "node") node).depth = 2 * (elements node).length :=
              (iharms (⟨"n", .named "node"⟩, some node) (by simp) node rfl).1 rfl
            exact (depth_chain_more node).trans (congrArg (· + 1) hnode)
  | _ => constructor <;> rintro ⟨⟩

end Calculator

namespace SampleType

/-- The types of the calculator interface. -/
def calculatorTypes : List SampleType :=
  [.point, .color, .msg, .opt, .chain, .node]

/-- A value as a text. -/
def toText (package : Package) (sample : SampleType) (value : Value) :
    Except WireError String :=
  sample.schema.toText package sample.type value

/-- The value that a text stands for. -/
def fromText (package : Package) (sample : SampleType) (text : String) :
    Except WireError Value :=
  sample.schema.ofText package sample.type text

theorem floatless_of_calculator {sample : SampleType} (hsample : sample ∈ calculatorTypes) :
    sample.schema.Floatless ∧ sample.type.isFloatless = true := by
  simp only [calculatorTypes, mem_cons, not_mem_nil, or_false] at hsample
  rcases hsample with rfl | rfl | rfl | rfl | rfl | rfl <;> exact ⟨Calculator.floatless, rfl⟩

/-- **Reading the text of a value of the calculator interface**, with
strings of any characters.  Given a package for JSON that writes without
blanks, with escapes for quotes, backslashes and control characters only,
and that reads what a text spells up to 127 nested containers and fails
beyond, the value has a text.  It comes back from it without its stale arms
if its structural form nests at most 127 objects, and cannot be read
otherwise; a list of nodes nests twice as many objects as it has elements. -/
theorem fromText_toText {package : Json.Package} (hwrites : package.WritesCompactly)
    (hreads : package.ReadsUpTo 127) (sample : SampleType)
    (hsample : sample ∈ calculatorTypes) {value : Value}
    (hvalue : sample.schema.HasType sample.type value) :
    (∃ text, toText package sample value = .ok text ∧
      ((sample.toStructural value).depth ≤ 127 →
        fromText package sample text = .ok (sample.schema.clear sample.type value)) ∧
      (127 < (sample.toStructural value).depth →
        fromText package sample text = .error .badJson)) ∧
    (sample = node →
      (sample.toStructural value).depth = 2 * (Calculator.elements value).length) := by
  obtain ⟨hfloatless, hplain⟩ := floatless_of_calculator hsample
  obtain ⟨text, htext, hread⟩ :=
    Schema.ofText_toText hwrites hreads sample.definite hfloatless
    hvalue sample.isDefinite_type hplain
  refine ⟨⟨text, htext, fun hdepth => hread.trans (if_pos hdepth), fun hdepth => ?_⟩, ?_⟩
  · exact hread.trans (if_neg (Nat.not_le_of_lt hdepth))
  · rintro rfl
    exact (Calculator.depth_toJson hvalue).1 rfl

/-- A message whose text has quotes, escapes and characters outside of the
basic plane, and a number left from before. -/
def strangeMessage : Value :=
  .union (.int 1) [.present (.int 7), .present (.text "\"\\\n\x01\x7f/é\u2028😀")]

theorem hasType_strangeMessage : msg.schema.HasType msg.type strangeMessage := by
  refine @Schema.HasType.union _ "Msg" _ _ [some _, some _] rfl (.int 1) rfl ?_
  simpa using ⟨.int 7, .text none _⟩

/-- A list of nodes that counts down to zero. -/
def countdown : Nat → Value
  | 0 => .record [.int 0, .union (.bool false) [.absent]]
  | n + 1 =>
    .record [.int (Int32.ofNat (n + 1)), .union (.bool true) [.present (countdown n)]]

theorem hasType_countdown (n : Nat) : node.schema.HasType node.type (countdown n) := by
  induction n with
  | zero => exact hasType_node _ (hasType_chain false none (by simp))
  | succ n ih =>
    exact hasType_node _ (hasType_chain true (some _) fun _ h => Option.mem_some.mp h ▸ ih)

theorem length_elements_countdown (n : Nat) :
    (Calculator.elements (countdown n)).length = n + 1 := by
  induction n with
  | zero => rfl
  | succ n ih => exact congrArg (· + 1) ih

/-- By the standard package, the message comes back without the number, and
of two lists of nodes the one with 63 elements comes back, while the one
with 64 cannot be read. -/
theorem fromText_toText_strangeMessage_countdown :
    (msg.schema.HasType msg.type strangeMessage ∧
      ∃ text, toText .standard msg strangeMessage = .ok text ∧
        fromText .standard msg text =
          .ok (.union (.int 1) [.absent, .present (.text "\"\\\n\x01\x7f/é\u2028😀")])) ∧
    (node.schema.HasType node.type (countdown 62) ∧
      (Calculator.elements (countdown 62)).length = 63 ∧
      ∃ text, toText .standard node (countdown 62) = .ok text ∧
        fromText .standard node text = .ok (node.schema.clear node.type (countdown 62))) ∧
    node.schema.HasType node.type (countdown 63) ∧
      (Calculator.elements (countdown 63)).length = 64 ∧
      ∃ text, toText .standard node (countdown 63) = .ok text ∧
        fromText .standard node text = .error .badJson := by
  have hwrites := Json.Package.writesCompactly_standard
  have hreads := Json.Package.readsUpTo_standard
  obtain ⟨⟨message, hmessage, hback, -⟩, -⟩ :=
    fromText_toText hwrites hreads msg (by decide) hasType_strangeMessage
  obtain ⟨⟨short, hshort, hshortBack, -⟩, hshortDepth⟩ :=
    fromText_toText hwrites hreads node (by decide) (hasType_countdown 62)
  obtain ⟨⟨long, hlong, -, hlongBack⟩, hlongDepth⟩ :=
    fromText_toText hwrites hreads node (by decide) (hasType_countdown 63)
  refine ⟨⟨hasType_strangeMessage, message, hmessage, hback (by decide)⟩,
    ⟨hasType_countdown 62, length_elements_countdown 62, short, hshort, hshortBack ?_⟩,
    hasType_countdown 63, length_elements_countdown 63, long, hlong, hlongBack ?_⟩
  · rw [hshortDepth rfl, length_elements_countdown]
    decide
  · rw [hlongDepth rfl, length_elements_countdown]
    decide

end SampleType
end Xdr
