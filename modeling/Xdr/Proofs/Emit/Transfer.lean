import Xdr.Proofs.Emit.Strokes

/-!
# How fields are moved

What the declaration of a field prescribes for its way over the wire, said
once for both directions: a routine of the runtime, a limit and a function
for the items, or the declared type itself.

## Main Statements

* `Bundle.Prescribes.unique` — there is only one such transfer
* `Bundle.exists_transfer_of_layout` — a layout that is found realizes the
  prescribed transfer

## Design Notes

Both expressions of a transfer are made from the same routine, limit and
item, and differ in nothing but the direction: packing is also given the
value, unpacking puts an optional value of a declared type in a box.
-/

namespace Xdr

open Layout Length Shape String TypeRef

variable {item : Element} {shape : Shape} {fixed : Bool} {p : Primitive}

/-! ### Transfers -/

/-- What moves an item: a routine, without a bound if it is one for runs of
bytes, or a declared type itself. -/
inductive Element where
  | scalar (routine : String)
  | blob (routine : String)
  | declared (name : String)
  deriving DecidableEq, Repr

namespace Element

/-- The function that packs an item. -/
def packer : Element → String
  | .scalar routine => "|packer, item| packer.pack_" ++ routine ++ "(*item)"
  | .blob routine => "|packer, item| packer.pack_" ++ routine ++ "(item, None)"
  | .declared _ => "|packer, item| item.pack(packer)"

/-- The function that unpacks an item. -/
def unpacker : Element → String
  | .scalar routine => "|unpacker| unpacker.unpack_" ++ routine ++ "()"
  | .blob routine => "|unpacker| unpacker.unpack_" ++ routine ++ "(None)"
  | .declared name => "|unpacker| " ++ name ++ "::unpack(unpacker)"

/-- Whether an item is a value of a declared type. -/
def isDeclared : Element → Bool
  | .declared _ => true
  | _ => false

end Element

/-- What moves a field: the call of a routine, with the limit and the item
that it is given, or the declared type of the field itself. -/
inductive Transfer where
  | call (routine : String) (limit : Option String) (item : Option Element)
  | own (name : String)
  deriving DecidableEq, Repr

namespace Transfer

/-- How a routine is given the value: a scalar itself, the content of an
optional, and anything else by reference. -/
def value (access : Access) (limit : Option String) (item : Option Element) : String :=
  match limit, item with
  | none, none => access.copied
  | none, some item => access.target ++ if item.isDeclared then ".as_deref()" else ".as_ref()"
  | some _, _ => access.borrowed

/-- The function for the items of a call that unpacks: an optional value of
a declared type is boxed. -/
def unpackItem (limit : Option String) (item : Element) : String :=
  if limit.isNone && item.isDeclared then item.unpacker ++ ".map(Box::new)" else item.unpacker

/-- The expression that packs. -/
def pack (access : Access) : Transfer → String
  | .call routine limit item =>
    "packer.pack_" ++ routine ++ "(" ++
      ", ".intercalate (value access limit item ::
        (limit.toList ++ (item.map Element.packer).toList)) ++ ")"
  | .own _ => access.target ++ ".pack(packer)"

/-- The expression that unpacks. -/
def unpack : Transfer → String
  | .call routine limit item =>
    "unpacker.unpack_" ++ routine ++ "(" ++
      ", ".intercalate (limit.toList ++ (item.map (unpackItem limit)).toList) ++ ")"
  | .own name => name ++ "::unpack(unpacker)"

/-- Whether a field is moved by its own type. -/
def isOwn : Transfer → Bool
  | .own _ => true
  | .call .. => false

end Transfer

/-! ### What a declaration prescribes -/

/-- The routine of a type all of whose values have one size. -/
def TypeRef.scalarRoutine? : TypeRef → Option String
  | .int => some "int"
  | .uint => some "uint"
  | .hyper => some "hyper"
  | .uhyper => some "uhyper"
  | .float => some "float"
  | .double => some "double"
  | .bool => some "bool"
  | _ => none

/-- The routine of a type whose values are runs of bytes. -/
def TypeRef.blobRoutine? : TypeRef → Option String
  | .string => some "string"
  | .opaqueData => some "opaque"
  | .netobj => some "opaque"
  | _ => none

namespace Bundle

/-- The text of a length: a literal itself, and a name as the expression
that it stands for. -/
inductive LengthText (bundle : Bundle) : IntExpr → String → Prop
  | literal (digits : String) : LengthText bundle (.literal digits) digits
  | name {name expr} (h : bundle.expressions.find? name = some expr) :
      LengthText bundle (.name name) (expr ++ " as u32")

/-- The limit that the length of an array stands for: a fixed length itself,
and a bound if there is one. -/
inductive Limit (bundle : Bundle) : Option IntExpr → Bool → String → Prop
  | fixed {length text} (h : bundle.LengthText length text) :
      Limit bundle (some length) true text
  | bounded {length text} (h : bundle.LengthText length text) :
      Limit bundle (some length) false ("Some(" ++ text ++ ")")
  | unbounded : Limit bundle none false "None"

/-- What moves the items of a type. -/
inductive Moves (bundle : Bundle) : TypeRef → Element → Prop
  | scalar {type : TypeRef} {routine} (h : type.scalarRoutine? = some routine) :
      Moves bundle type (.scalar routine)
  | blob {type : TypeRef} {routine} (h : type.blobRoutine? = some routine) :
      Moves bundle type (.blob routine)
  | declared {name} (h : ∃ decl ∈ bundle.types, decl.name = name) :
      Moves bundle (.named name) (.declared name)

/-- The routine for a fixed length has a name of its own. -/
def marked (fixed : Bool) (routine : String) : String :=
  if fixed then "f" ++ routine else routine

/-- The transfer that the type and the form of a field prescribe. -/
inductive Prescribes (bundle : Bundle) : TypeRef → Form → Transfer → Prop
  | scalar {type : TypeRef} {routine} (htype : type.scalarRoutine? = some routine) :
      Prescribes bundle type .plain (.call routine none none)
  | own {name} (hname : ∃ decl ∈ bundle.types, decl.name = name) :
      Prescribes bundle (.named name) .plain (.own name)
  | blob {type : TypeRef} {routine} (htype : type.blobRoutine? = some routine) :
      Prescribes bundle type .plain (.call routine (some "None") none)
  | limitedBlob {type : TypeRef} {routine limit length fixed}
      (htype : type.blobRoutine? = some routine) (hlimit : bundle.Limit length fixed limit) :
      Prescribes bundle type (.array length fixed)
        (.call (marked fixed routine) (some limit) none)
  | array {type : TypeRef} {item limit length fixed} (htype : type.blobRoutine? = none)
      (hitem : bundle.Moves type item) (hlimit : bundle.Limit length fixed limit) :
      Prescribes bundle type (.array length fixed)
        (.call (marked fixed "array") (some limit) (some item))
  | optional {type : TypeRef} {item} (hitem : bundle.Moves type item) :
      Prescribes bundle type .pointer (.call "optional" none (some item))

section

variable {bundle : Bundle} {type : TypeRef}

theorem LengthText.unique {length first second} (hfirst : bundle.LengthText length first)
    (hsecond : bundle.LengthText length second) : first = second := by
  cases hfirst <;> cases hsecond <;> grind

theorem Limit.unique {length first second} (hfirst : bundle.Limit length fixed first)
    (hsecond : bundle.Limit length fixed second) : first = second := by
  cases hfirst <;> cases hsecond <;> grind [LengthText.unique]

/-- No type has both kinds of routines. -/
theorem blobRoutine?_eq_none {routine} (h : type.scalarRoutine? = some routine) :
    type.blobRoutine? = none := by
  cases type <;> first | rfl | cases h

theorem Moves.unique {first second} (hfirst : bundle.Moves type first)
    (hsecond : bundle.Moves type second) : first = second := by
  cases hfirst <;> cases hsecond <;>
    grind [blobRoutine?_eq_none, scalarRoutine?, blobRoutine?]

/-- **The prescribed transfer is unique.**  The routine of a type tells
which clause applies. -/
theorem Prescribes.unique {form : Form} {first second : Transfer}
    (hfirst : bundle.Prescribes type form first)
    (hsecond : bundle.Prescribes type form second) : first = second := by
  cases hfirst <;> cases hsecond <;>
    grind [blobRoutine?_eq_none, scalarRoutine?, blobRoutine?, Limit.unique, Moves.unique]

end

end Bundle

/-! ### Layouts -/

/-- The expressions of a layout are those of a transfer, and an arm is boxed
if its own type moves it. -/
structure Layout.Realizes (layout : Layout) (transfer : Transfer) : Prop where
  pack : ∀ access, layout.pack access = transfer.pack access
  unpack : layout.unpack = transfer.unpack
  boxed : ∀ field, Emit.Arm.isBoxed ⟨field, layout⟩ = transfer.isOwn

/-- The functions of a shape are those of an item. -/
structure Shape.Realizes (shape : Shape) (item : Element) : Prop where
  packItem : shape.packItem = item.packer
  unpackItem : shape.unpackItem = item.unpacker

namespace Shape

theorem realizes_scalar (h : p.isBlob = false) :
    (primitive p).Realizes (.scalar p.routine) := by
  constructor
  · rw [packItem, if_neg (h ▸ Bool.false_ne_true)]
    rfl
  · rw [unpackItem, if_neg (h ▸ Bool.false_ne_true)]
    rfl

theorem realizes_blob (h : p.isBlob = true) : (primitive p).Realizes (.blob p.routine) := by
  constructor
  · rw [packItem, if_pos h]
    rfl
  · rw [unpackItem, if_pos h]
    rfl

theorem realizes_declared (name : String) : (composite name).Realizes (.declared name) :=
  ⟨rfl, rfl⟩

end Shape

namespace Layout

theorem realizes_own (name : String) : (raw (.composite name)).Realizes (.own name) :=
  ⟨fun _ => rfl, rfl, fun _ => rfl⟩

theorem realizes_raw (p : Primitive) :
    (raw (.primitive p)).Realizes (.call p.routine none none) := by
  refine ⟨fun _ => rfl, ?_, fun _ => rfl⟩
  have hempty : "(" ++ ("" ++ ")") = "()" := by decide
  have htransfer : (Transfer.call p.routine none none).unpack =
      "unpacker.unpack_" ++ p.routine ++ "(" ++ "" ++ ")" := rfl
  rw [htransfer, append_assoc, append_assoc, append_assoc, hempty, ← append_assoc]
  rfl

/-! The texts of the other layouts and transfers are the same up to the
grouping of their parts. -/

theorem realizes_fixedBlob (p : Primitive) (length : String) :
    (blob p (.fixed length)).Realizes (.call ("f" ++ p.routine) (some length) none) where
  pack access := by
    have hlayout : (blob p (.fixed length)).pack access =
        "packer.pack_f" ++ p.routine ++ "(" ++ access.borrowed ++ ", " ++ length ++ ")" := rfl
    have htransfer : (Transfer.call ("f" ++ p.routine) (some length) none).pack access =
        "packer.pack_" ++ ("f" ++ p.routine) ++ "(" ++
        (access.borrowed ++ ", " ++ length) ++ ")" := rfl
    have hroutine : "packer.pack_f" = "packer.pack_" ++ "f" := by decide
    rw [hlayout, htransfer, hroutine]
    simp only [append_assoc]
  unpack := by
    have hlayout : (blob p (.fixed length)).unpack =
        "unpacker.unpack_f" ++ p.routine ++ "(" ++ length ++ ")" := rfl
    have htransfer : (Transfer.call ("f" ++ p.routine) (some length) none).unpack =
        "unpacker.unpack_" ++ ("f" ++ p.routine) ++ "(" ++ length ++ ")" := rfl
    have hroutine : "unpacker.unpack_f" = "unpacker.unpack_" ++ "f" := by decide
    rw [hlayout, htransfer, hroutine]
    simp only [append_assoc]
  boxed _ := rfl

theorem realizes_boundedBlob (p : Primitive) (bound : Option String) :
    (blob p (.bounded bound)).Realizes
      (.call p.routine (some (bounded bound).bound) none) where
  pack access := by
    have hlayout : (blob p (.bounded bound)).pack access =
        "packer.pack_" ++ p.routine ++ "(" ++ access.borrowed ++ ", " ++
        (bounded bound).bound ++ ")" := rfl
    have htransfer : (Transfer.call p.routine (some (bounded bound).bound) none).pack access =
        "packer.pack_" ++ p.routine ++ "(" ++
        (access.borrowed ++ ", " ++ (bounded bound).bound) ++ ")" :=
      rfl
    rw [hlayout, htransfer]
    simp only [append_assoc]
  unpack := rfl
  boxed _ := rfl

/-- A routine that moves items up to a limit. -/
theorem realizes_items {layout : Layout} {routine limit} (packing unpacking : String)
    (hpacking : packing = "packer.pack_" ++ routine ++ "(") (hunpacking : unpacking =
      "unpacker.unpack_" ++ routine ++ "(") (hpack : ∀ access, layout.pack access = packing ++
        access.borrowed ++ ", " ++ limit ++ ", " ++ item.packer ++ ")")
      (hunpack : layout.unpack = unpacking ++ limit ++ ", " ++ item.unpacker ++ ")")
    (hboxed : ∀ field, Emit.Arm.isBoxed ⟨field, layout⟩ = false) :
    layout.Realizes (.call routine (some limit) (some item)) where
  pack access := by
    have htransfer : (Transfer.call routine (some limit) (some item)).pack access =
      "packer.pack_" ++ routine ++
        "(" ++ (access.borrowed ++ ", " ++ limit ++ ", " ++ item.packer) ++ ")" := rfl
    rw [hpack, htransfer, hpacking]
    simp only [append_assoc]
  unpack := by
    have htransfer : (Transfer.call routine (some limit) (some item)).unpack =
        "unpacker.unpack_" ++ routine ++ "(" ++ (limit ++ ", " ++ item.unpacker) ++ ")" := rfl
    rw [hunpack, htransfer, hunpacking]
    simp only [append_assoc]
  boxed := hboxed

theorem realizes_fixedArray (h : shape.Realizes item) (length : String) :
    (array shape (.fixed length)).Realizes
      (.call ("f" ++ "array") (some length) (some item)) := by
  refine realizes_items "packer.pack_farray(" "unpacker.unpack_farray(" (by decide)
    (by decide) (fun access => ?_) ?_ fun _ => rfl
  · rw [← h.packItem]
    rfl
  · rw [← h.unpackItem]
    rfl

theorem realizes_boundedArray (h : shape.Realizes item) (bound : Option String) :
    (array shape (.bounded bound)).Realizes
      (.call "array" (some (bounded bound).bound) (some item)) := by
  refine realizes_items "packer.pack_array(" "unpacker.unpack_array(" (by decide) (by decide)
    (fun access => ?_) ?_ fun _ => rfl
  · rw [← h.packItem]
    rfl
  · rw [← h.unpackItem]
    rfl

theorem realizes_optional (h : (primitive p).Realizes item)
    (hitem : item.isDeclared = false) :
    (optional (.primitive p)).Realizes (.call "optional" none (some item)) where
  pack access := by
    have hlayout : (optional (.primitive p)).pack access =
        "packer.pack_optional(" ++ access.target ++ ".as_ref(), " ++
        (primitive p).packItem ++ ")" := rfl
    have htransfer : (Transfer.call "optional" none (some item)).pack access =
        "packer.pack_" ++ "optional" ++ "(" ++
          (access.target ++ (if item.isDeclared then ".as_deref()"
            else ".as_ref()") ++ ", " ++ item.packer) ++ ")" := rfl
    have hroutine : "packer.pack_optional(" = "packer.pack_" ++ "optional" ++ "(" := by decide
    have hvalue : ".as_ref(), " = ".as_ref()" ++ ", " := by decide
    rw [hlayout, htransfer, hroutine, hvalue, h.packItem, if_neg (by simp [hitem])]
    simp only [append_assoc]
  unpack := by
    have hlayout : (optional (.primitive p)).unpack =
        "unpacker.unpack_optional(" ++ (primitive p).unpackItem ++ ")" := rfl
    have htransfer : (Transfer.call "optional" none (some item)).unpack =
        "unpacker.unpack_" ++ "optional" ++ "(" ++
          (if true && item.isDeclared then item.unpacker ++ ".map(Box::new)"
            else item.unpacker) ++ ")" := rfl
    have hroutine :
      "unpacker.unpack_optional(" = "unpacker.unpack_" ++ "optional" ++ "(" := by decide
    rw [hlayout, htransfer, hroutine, h.unpackItem, if_neg (by simp [hitem])]
  boxed _ := rfl

theorem realizes_optional_declared (name : String) :
    (optional (.composite name)).Realizes
      (.call "optional" none (some (.declared name))) where
  pack access := by
    have hlayout : (optional (.composite name)).pack access =
        "packer.pack_optional(" ++ access.target ++ ".as_deref(), " ++
        Element.packer (.declared name) ++ ")" := rfl
    have htransfer : (Transfer.call "optional" none (some (.declared name))).pack access =
        "packer.pack_" ++ "optional" ++ "(" ++
          (access.target ++ ".as_deref()" ++ ", " ++ Element.packer (.declared name)) ++
          ")" := rfl
    have hroutine : "packer.pack_optional(" = "packer.pack_" ++ "optional" ++ "(" := by decide
    have hvalue : ".as_deref(), " = ".as_deref()" ++ ", " := by decide
    rw [hlayout, htransfer, hroutine, hvalue]
    simp only [append_assoc]
  unpack := by
    have hlayout : (optional (.composite name)).unpack =
        "unpacker.unpack_optional(|unpacker| " ++ name ++
        "::unpack(unpacker).map(Box::new))" := rfl
    have htransfer : (Transfer.call "optional" none (some (.declared name))).unpack =
        "unpacker.unpack_" ++ "optional" ++ "(" ++
          ("|unpacker| " ++ name ++ "::unpack(unpacker)" ++ ".map(Box::new)") ++ ")" := rfl
    have hroutine : "unpacker.unpack_optional(|unpacker| " =
        "unpacker.unpack_" ++ "optional" ++ "(" ++ "|unpacker| " := by decide
    have hboxed : "::unpack(unpacker).map(Box::new))" =
        "::unpack(unpacker)" ++ ".map(Box::new)" ++ ")" := by decide
    rw [hlayout, htransfer, hroutine, hboxed]
    simp only [append_assoc]
  boxed _ := rfl

end Layout

/-! ### Resolution -/

namespace Bundle

variable {bundle : Bundle} {type : TypeRef} {context : String}

/-- What a type that has a shape is. -/
theorem shape_cases (h : bundle.shape type context = .ok shape) :
    (∃ p : Primitive, p.isBlob = false ∧ type.scalarRoutine? = some p.routine ∧
      type.blobRoutine? = none ∧ shape = .primitive p) ∨
      (∃ p : Primitive, p.isBlob = true ∧ type.blobRoutine? = some p.routine ∧
        shape = .primitive p) ∨
      ∃ name, type = .named name ∧ (∃ decl ∈ bundle.types, decl.name = name) ∧
      shape = .composite name := by
  cases type with
  | void => cases h
  | named name =>
    refine .inr (.inr ⟨name, rfl, ?_⟩)
    unfold Bundle.shape at h
    dsimp only [primitive?] at h
    split at h
    · next hfound =>
      cases h
      obtain ⟨decl, hdecl⟩ := Option.isSome_iff_exists.mp hfound
      have hname := List.find?_some hdecl
      exact ⟨⟨decl, List.mem_of_find?_eq_some hdecl, by simpa using hname⟩, rfl⟩
    · cases h
  | string =>
    cases h
    exact .inr (.inl ⟨.string, rfl, rfl, rfl⟩)
  | opaqueData =>
    cases h
    exact .inr (.inl ⟨.opaqueData, rfl, rfl, rfl⟩)
  | netobj =>
    cases h
    exact .inr (.inl ⟨.opaqueData, rfl, rfl, rfl⟩)
  | _ =>
    cases h
    exact .inl ⟨_, rfl, rfl, rfl, rfl⟩

theorem lengthText_of_valueText {length text}
    (h : bundle.valueText length "u32" context = .ok text) :
    bundle.LengthText length text := by
  cases length with
  | literal digits =>
    cases h
    exact .literal _
  | name name =>
    unfold valueText at h
    dsimp only at h
    split at h
    · next expr hexpr =>
      have hcast : " as " ++ "u32" = " as u32" := by decide
      have htext : expr ++ " as " ++ "u32" = text := Except.ok.inj h
      rw [← htext, append_assoc, hcast]
      exact .name hexpr
    · cases h

theorem lengthText_of_unsignedText {length text}
    (h : bundle.unsignedText length context = .ok text) : bundle.LengthText length text := by
  unfold unsignedText at h
  repeat' split at h
  · cases h
  · cases h
  · exact lengthText_of_valueText h
  · exact lengthText_of_valueText h

/-- A length that is found is a fixed one with its own text, or a bound with
the limit that it stands for. -/
theorem arrayLength_cases {length found}
    (h : bundle.arrayLength length fixed context = .ok found) :
    (∃ text, fixed = true ∧ bundle.Limit length fixed text ∧ found = .fixed text) ∨
      ∃ bound, fixed = false ∧ bundle.Limit length fixed (bounded bound).bound ∧
        found = .bounded bound := by
  cases length with
  | none =>
    cases fixed with
    | true => cases h
    | false =>
      cases h
      exact .inr ⟨none, rfl, .unbounded, rfl⟩
  | some value =>
    cases fixed with
    | true =>
      obtain ⟨text, htext, rfl⟩ := map_eq_ok.mp h
      exact .inl ⟨text, rfl, .fixed (lengthText_of_unsignedText htext), rfl⟩
    | false =>
      obtain ⟨text, htext, rfl⟩ := map_eq_ok.mp h
      exact .inr ⟨some text, rfl, .bounded (lengthText_of_unsignedText htext), rfl⟩

/-- An array whose length is found realizes the prescribed transfer,
whatever moves its items. -/
theorem exists_transfer_of_arrayLength {length found} (htype : type.blobRoutine? = none)
    (hitem : bundle.Moves type item) (hshape : shape.Realizes item)
    (h : bundle.arrayLength length fixed context = .ok found) :
    ∃ transfer, bundle.Prescribes type (.array length fixed) transfer ∧
      (array shape found).Realizes transfer := by
  obtain ⟨text, rfl, hlimit, rfl⟩ | ⟨bound, rfl, hlimit, rfl⟩ := arrayLength_cases h
  · exact ⟨_, .array htype hitem hlimit, realizes_fixedArray hshape text⟩
  · exact ⟨_, .array htype hitem hlimit, realizes_boundedArray hshape bound⟩

/-- **A layout that is found realizes the prescribed transfer.** -/
theorem exists_transfer_of_layout {form : Form} {layout : Layout}
    (h : bundle.layout type form context = .ok layout) :
    ∃ transfer, bundle.Prescribes type form transfer ∧ layout.Realizes transfer := by
  obtain ⟨shape, hshape, h⟩ := bind_eq_ok.mp h
  obtain ⟨p, hblob, hscalar, hnone, rfl⟩ | ⟨p, hblob, hroutine, rfl⟩ |
    ⟨name, rfl, hname, rfl⟩ :=
    shape_cases hshape
  · -- a type of one size
    simp only [hblob] at h
    cases form with
    | plain =>
      cases h
      exact ⟨_, .scalar hscalar, realizes_raw p⟩
    | pointer =>
      cases h
      exact ⟨_, .optional (.scalar hscalar), realizes_optional (realizes_scalar hblob) rfl⟩
    | array length fixed =>
      obtain ⟨found, hfound, h⟩ := bind_eq_ok.mp h
      cases h
      exact exists_transfer_of_arrayLength hnone (.scalar hscalar)
        (realizes_scalar hblob) hfound
  · -- runs of bytes
    simp only [hblob] at h
    cases form with
    | plain =>
      cases h
      exact ⟨_, .blob hroutine, realizes_boundedBlob p none⟩
    | pointer =>
      cases h
      exact ⟨_, .optional (.blob hroutine), realizes_optional (realizes_blob hblob) rfl⟩
    | array length fixed =>
      obtain ⟨found, hfound, h⟩ := bind_eq_ok.mp h
      cases h
      obtain ⟨text, rfl, hlimit, rfl⟩ | ⟨bound, rfl, hlimit, rfl⟩ := arrayLength_cases hfound
      · exact ⟨_, .limitedBlob hroutine hlimit, realizes_fixedBlob p text⟩
      · exact ⟨_, .limitedBlob hroutine hlimit, realizes_boundedBlob p bound⟩
  · -- declared types
    cases form with
    | plain =>
      cases h
      exact ⟨_, .own hname, realizes_own name⟩
    | pointer =>
      cases h
      exact ⟨_, .optional (.declared hname), realizes_optional_declared name⟩
    | array length fixed =>
      obtain ⟨found, hfound, h⟩ := bind_eq_ok.mp h
      cases h
      exact exists_transfer_of_arrayLength rfl (.declared hname)
        (realizes_declared name) hfound

end Bundle
end Xdr
