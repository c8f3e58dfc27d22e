import Mathlib.Data.List.Forall2
import Xdr.Proofs.Bundle.Numbers
import Xdr.Proofs.Bundle.Recorded

/-!
# What becomes of declarations in a bundle

A bundle holds the declarations of a source by kind, each kind in the order
of the source, and integers from outside in front of the constants.  Inside
a declaration nothing changes but its literals, wherever they stand, and
these become canonical.  So it does not matter how declarations of different
kinds follow each other.

## Main Statements

* `Decl.framed` — a declaration is known by its integers and what is around
  them
* `Decl.Respelled.unique` — so there is only one way to respell it
* `Bundle.respelled_group` — the groups of a bundle
* `Bundle.groups_of_ofDecls` — the same, and that the order of different
  kinds does not matter
-/

namespace Xdr

open Decl Form Function List

/-! ### Integers and what is around them -/

/-- The integer of a label, unless it is the default. -/
def Label.values : Label → List IntExpr
  | .value number => [number]
  | .otherwise => []

/-- The label of a case, and the length of its array. -/
def Case.values (case : Case) : List IntExpr :=
  case.label.values ++ case.form.lengths

/-- The numbers of a version and its procedures. -/
def VersionDecl.values (version : VersionDecl) : List IntExpr :=
  version.number :: version.procs.map ProcDecl.id

/-- Every integer of a declaration, in order: the values of constants and
members, the lengths of arrays, the labels of cases, and the numbers of
programs, versions and procedures. -/
def Decl.values : Decl → List IntExpr
  | .const decl => [decl.value]
  | .enum decl => decl.members.map EnumMember.value
  | .struct decl => decl.fields.flatMap fun field => field.form.lengths
  | .union decl => decl.cases.flatMap Case.values
  | .typeDef field => field.form.lengths
  | .program decl => decl.number :: decl.versions.flatMap VersionDecl.values

/-- A declaration with other integers in the same places. -/
def Decl.mapValues (f : IntExpr → IntExpr) : Decl → Decl
  | .const decl => .const (decl.mapValues f)
  | .enum decl => .enum (decl.mapValues f)
  | .struct decl => .struct (decl.mapValues f)
  | .union decl => .union (decl.mapValues f)
  | .typeDef field => .typeDef (field.mapValues f)
  | .program decl => .program (decl.mapValues f)

/-- A declaration without its integers: the same literal stands for each of
them. -/
def Decl.frame (decl : Decl) : Decl :=
  decl.mapValues fun _ => .literal ""

section Laws

variable {f g : IntExpr → IntExpr}

theorem Form.mapValues_mapValues (form : Form) :
    (form.mapValues f).mapValues g = form.mapValues (g ∘ f) := by
  cases form with
  | plain | pointer => rfl
  | array length fixed => simp [mapValues]

theorem Label.values_mapValues (label : Label) :
    (label.mapValues f).values = label.values.map f := by
  cases label <;> rfl

theorem Label.mapValues_mapValues (label : Label) :
    (label.mapValues f).mapValues g = label.mapValues (g ∘ f) := by
  cases label <;> rfl

theorem Case.values_mapValues (case : Case) :
    (case.mapValues f).values = case.values.map f := by
  simp [values, mapValues, Label.values_mapValues, lengths_mapValues]

theorem VersionDecl.values_mapValues (version : VersionDecl) :
    (version.mapValues f).values = version.values.map f := by
  simp [values, mapValues, ProcDecl.mapValues, comp_def]

theorem VersionDecl.mapValues_mapValues (version : VersionDecl) :
    (version.mapValues f).mapValues g = version.mapValues (g ∘ f) := by
  simp [mapValues, ProcDecl.mapValues, comp_def]

theorem Decl.values_mapValues (decl : Decl) :
    (decl.mapValues f).values = decl.values.map f := by
  cases decl with
  | const decl => rfl
  | enum decl =>
    simp [values, mapValues, EnumDecl.mapValues, EnumMember.mapValues, comp_def]
  | struct decl => exact StructDecl.lengths_mapValues decl
  | union decl =>
    simp [values, mapValues, UnionDecl.mapValues, flatMap_map, map_flatMap,
      Case.values_mapValues]
  | typeDef field => exact lengths_mapValues field.form
  | program decl =>
    simp [values, mapValues, ProgramDecl.mapValues, flatMap_map, map_flatMap,
      VersionDecl.values_mapValues]

theorem Decl.mapValues_mapValues (decl : Decl) :
    (decl.mapValues f).mapValues g = decl.mapValues (g ∘ f) := by
  cases decl with
  | const decl => rfl
  | enum decl => simp [mapValues, EnumDecl.mapValues, EnumMember.mapValues, comp_def]
  | struct decl =>
    simp [mapValues, StructDecl.mapValues, Field.mapValues, Form.mapValues_mapValues]
  | union decl =>
    simp [mapValues, UnionDecl.mapValues, Case.mapValues, Label.mapValues_mapValues,
      Form.mapValues_mapValues]
  | typeDef field => simp [mapValues, Field.mapValues, Form.mapValues_mapValues]
  | program decl => simp [mapValues, ProgramDecl.mapValues, VersionDecl.mapValues_mapValues]

/-- Other integers leave what is around them as it is. -/
theorem Decl.frame_mapValues (decl : Decl) : (decl.mapValues f).frame = decl.frame :=
  decl.mapValues_mapValues

end Laws

/-! ### Frames and integers make up a declaration -/

/-- What has the same frame has as many integers, and is the same if they
are. -/
def Framed {α β : Type} (frame : α → β) (values : α → List IntExpr) : Prop :=
  ∀ {item other : α}, frame item = frame other →
    (values item).length = (values other).length ∧ (values item = values other → item = other)

/-- Items that follow each other are told apart, since their frames say
where the integers of each end. -/
theorem Framed.list {α β : Type} {frame : α → β} {values : α → List IntExpr}
    (h : Framed frame values) : Framed (map frame) (flatMap values) := by
  intro items others hframe
  induction items generalizing others with
  | nil =>
    obtain rfl := map_eq_nil_iff.mp hframe.symm
    exact ⟨rfl, fun _ => rfl⟩
  | cons item items ih =>
    obtain ⟨other, others, rfl, hfirst, hrest⟩ := map_eq_cons_iff.mp hframe.symm
    obtain ⟨hlength, hitem⟩ := h hfirst.symm
    obtain ⟨hlengths, hitems⟩ := ih hrest.symm
    refine ⟨by simp only [flatMap_cons, length_append, hlength, hlengths], fun hvalues => ?_⟩
    obtain ⟨hvalue, hvalues⟩ := append_inj hvalues hlength
    rw [hitem hvalue, hitems hvalues]

theorem Form.framed : Framed (mapValues fun _ => .literal "") lengths := by
  intro form other hframe
  rcases form with _ | ⟨_ | length, fixed⟩ | _ <;>
    rcases other with _ | ⟨_ | length', fixed'⟩ | _ <;> simp_all [mapValues, lengths]

theorem Label.framed : Framed (Label.mapValues fun _ => .literal "") Label.values := by
  intro label other hframe
  cases label <;> cases other <;> simp_all [mapValues, values]

theorem Field.framed : Framed (Field.mapValues fun _ => .literal "") fun field =>
    field.form.lengths := by
  rintro ⟨name, type, form⟩ ⟨name', type', form'⟩ hframe
  simp only [mapValues, mk.injEq] at hframe
  obtain ⟨rfl, rfl, hform⟩ := hframe
  refine ⟨(Form.framed hform).1, fun hvalues => ?_⟩
  rw [(Form.framed hform).2 hvalues]

theorem EnumMember.framed : Framed (EnumMember.mapValues fun _ => .literal "") fun member =>
    [member.value] := by
  rintro ⟨name, value⟩ ⟨name', value'⟩ hframe
  simp only [mapValues, mk.injEq, and_true] at hframe
  obtain rfl := hframe
  refine ⟨rfl, fun hvalues => ?_⟩
  obtain rfl : value = value' := singleton_inj.mp hvalues
  rfl

theorem Case.framed : Framed (Case.mapValues fun _ => .literal "") Case.values := by
  rintro ⟨label, type, name, form⟩ ⟨label', type', name', form'⟩ hframe
  simp only [mapValues, mk.injEq] at hframe
  obtain ⟨hlabel, rfl, rfl, hform⟩ := hframe
  obtain ⟨hlabels, hlabel⟩ := Label.framed hlabel
  obtain ⟨hlengths, hform⟩ := Form.framed hform
  refine ⟨by simp only [values, length_append, hlabels, hlengths], fun hvalues => ?_⟩
  obtain ⟨hfirst, hrest⟩ := append_inj hvalues hlabels
  rw [hlabel hfirst, hform hrest]

theorem ProcDecl.framed : Framed (ProcDecl.mapValues fun _ => .literal "") fun proc =>
    [proc.id] := by
  rintro ⟨id, name, arg, res⟩ ⟨id', name', arg', res'⟩ hframe
  simp only [mapValues, mk.injEq, true_and] at hframe
  obtain ⟨rfl, rfl, rfl⟩ := hframe
  refine ⟨rfl, fun hvalues => ?_⟩
  obtain rfl : id = id' := singleton_inj.mp hvalues
  rfl

theorem VersionDecl.framed :
    Framed (VersionDecl.mapValues fun _ => .literal "") VersionDecl.values := by
  rintro ⟨name, number, procs⟩ ⟨name', number', procs'⟩ hframe
  simp only [mapValues, mk.injEq, true_and] at hframe
  obtain ⟨rfl, hprocs⟩ := hframe
  obtain ⟨hlength, hprocs⟩ := ProcDecl.framed.list hprocs
  rw [← map_eq_flatMap, ← map_eq_flatMap] at hlength hprocs
  refine ⟨congrArg (· + 1) hlength, fun hvalues => ?_⟩
  obtain ⟨rfl, hids⟩ := cons.inj hvalues
  rw [hprocs hids]

/-- **A declaration is known by its integers and what is around them.** -/
theorem Decl.framed : Framed frame values := by
  intro decl other hframe
  cases decl <;> cases other <;> try cases hframe
  case const.const decl other =>
    obtain ⟨name, value⟩ := decl
    obtain ⟨name', value'⟩ := other
    simp only [frame, mapValues, ConstDecl.mapValues, const.injEq, ConstDecl.mk.injEq,
      and_true] at hframe
    obtain rfl := hframe
    refine ⟨rfl, fun hvalues => ?_⟩
    obtain rfl : value = value' := singleton_inj.mp hvalues
    rfl
  case enum.enum decl other =>
    obtain ⟨name, members⟩ := decl
    obtain ⟨name', members'⟩ := other
    simp only [frame, mapValues, EnumDecl.mapValues, enum.injEq, EnumDecl.mk.injEq] at hframe
    obtain ⟨rfl, hmembers⟩ := hframe
    obtain ⟨hlength, hmembers⟩ := EnumMember.framed.list hmembers
    rw [← map_eq_flatMap, ← map_eq_flatMap] at hlength hmembers
    exact ⟨hlength, fun hvalues => by rw [hmembers hvalues]⟩
  case struct.struct decl other =>
    obtain ⟨name, fields⟩ := decl
    obtain ⟨name', fields'⟩ := other
    simp only [frame, mapValues, StructDecl.mapValues, struct.injEq,
      StructDecl.mk.injEq] at hframe
    obtain ⟨rfl, hfields⟩ := hframe
    obtain ⟨hlength, hfields⟩ := Field.framed.list hfields
    exact ⟨hlength, fun hvalues => by rw [hfields hvalues]⟩
  case union.union decl other =>
    obtain ⟨name, discriminant, cases⟩ := decl
    obtain ⟨name', discriminant', cases'⟩ := other
    simp only [frame, mapValues, UnionDecl.mapValues, union.injEq,
      UnionDecl.mk.injEq] at hframe
    obtain ⟨rfl, rfl, hcases⟩ := hframe
    obtain ⟨hlength, hcases⟩ := Case.framed.list hcases
    exact ⟨hlength, fun hvalues => by rw [hcases hvalues]⟩
  case typeDef.typeDef field other =>
    obtain ⟨hlength, hfield⟩ := Field.framed (typeDef.inj hframe)
    exact ⟨hlength, fun hvalues => by rw [hfield hvalues]⟩
  case program.program decl other =>
    obtain ⟨name, number, versions⟩ := decl
    obtain ⟨name', number', versions'⟩ := other
    simp only [frame, mapValues, ProgramDecl.mapValues, program.injEq, ProgramDecl.mk.injEq,
      true_and] at hframe
    obtain ⟨rfl, hversions⟩ := hframe
    obtain ⟨hlength, hversions⟩ := VersionDecl.framed.list hversions
    refine ⟨congrArg (· + 1) hlength, fun hvalues => ?_⟩
    obtain ⟨rfl, hrest⟩ := cons.inj hvalues
    rw [hversions hrest]

/-! ### Respelling -/

/-- Nothing in a declaration was changed but its integers, and each of them
into its canonical form: a literal into its canonical spelling, and a name
not at all. -/
structure Decl.Respelled (decl result : Decl) : Prop where
  frame : result.frame = decl.frame
  values : result.values = decl.values.map IntExpr.canonical

theorem Decl.respelled_mapValues (decl : Decl) :
    decl.Respelled (decl.mapValues IntExpr.canonical) :=
  ⟨decl.frame_mapValues, decl.values_mapValues⟩

/-- **There is only one way to respell a declaration.** -/
theorem Decl.Respelled.unique {decl result other : Decl} (h : decl.Respelled result)
    (h' : decl.Respelled other) : result = other :=
  (framed (h.frame.trans h'.frame.symm)).2 (h.values.trans h'.values.symm)

theorem Decl.Respelled.unique_list {decls results others}
    (h : List.Forall₂ Respelled decls results)
    (h' : List.Forall₂ Respelled decls others) : results = others := by
  induction h generalizing others with
  | nil =>
    cases h'
    rfl
  | cons hfirst _ ih =>
    cases h' with
    | cons hother hrest => rw [hfirst.unique hother, ih hrest]

/-! ### Kinds -/

/-- A kind of declarations. -/
inductive DeclKind where
  | const
  | enum
  | struct
  | union
  | typeDef
  | program
  deriving DecidableEq, Repr

namespace DeclKind

/-- The kind of a declaration. -/
def of : Decl → DeclKind
  | .const _ => .const
  | .enum _ => .enum
  | .struct _ => .struct
  | .union _ => .union
  | .typeDef _ => .typeDef
  | .program _ => .program

/-- The declarations of a kind, in the order of the list. -/
def among (kind : DeclKind) (decls : List Decl) : List Decl :=
  decls.filter fun decl => of decl = kind

theorem mem_among {kind : DeclKind} {decls decl} :
    decl ∈ kind.among decls ↔ decl ∈ decls ∧ of decl = kind := by
  simp [among]

end DeclKind

namespace Bundle

variable {decls others : List Decl} {defines : List Define}

/-- A group of a bundle, as declarations. -/
def group (bundle : Bundle) : DeclKind → List Decl
  | .const => bundle.consts.map .const
  | .enum => bundle.enums.map .enum
  | .struct => bundle.structs.map .struct
  | .union => bundle.unions.map .union
  | .typeDef => bundle.typedefs.map .typeDef
  | .program => bundle.programs.map .program

/-- What is put in front of a group: constants for the integers that are
defined from outside, in order, unless a declaration bears the name; and
nothing in front of other groups. -/
def outside (decls : List Decl) (defines : List Define) : DeclKind → List Decl
  | .const =>
    ((defines.filterMap Define.const?).filter fun const => decls.all fun decl =>
      decl.name ≠ const.name).map .const
  | _ => []

/-- The groups of a bundle are all that it has. -/
theorem eq_of_group_eq {bundle other : Bundle}
    (h : ∀ kind, bundle.group kind = other.group kind) : bundle = other := by
  have hinj : ∀ {α : Type} {make : α → Decl} {items items' : List α},
    (∀ {a b}, make a = make b → a = b) → items.map make = items'.map make → items = items' :=
    fun hmake hmap => map_injective_iff.mpr (fun _ _ => hmake) hmap
  obtain ⟨consts, enums, structs, unions, typedefs, programs⟩ := bundle
  obtain ⟨consts', enums', structs', unions', typedefs', programs'⟩ := other
  obtain rfl := hinj const.inj (h .const)
  obtain rfl := hinj enum.inj (h .enum)
  obtain rfl := hinj struct.inj (h .struct)
  obtain rfl := hinj union.inj (h .union)
  obtain rfl := hinj typeDef.inj (h .typeDef)
  obtain rfl := hinj program.inj (h .program)
  rfl

theorem map_outsideConsts (decls : List Decl) (defines : List Define) :
    (outsideConsts decls defines).map const = outside decls defines .const := by
  rw [outside, filter_filterMap, outsideConsts]
  congr 2
  funext define
  unfold Define.const?
  cases define.value with
  | text _ => rfl
  | int digits =>
    by_cases h : ∃ decl ∈ decls, decl.name = escapeWord define.name <;>
      simp_all [Option.filter]

/-- The declarations that `pick` finds, respelled by `spell`, are those of
its kind, respelled. -/
theorem forall₂_picked {α : Type} {kind : DeclKind} {pick : Decl → Option α} {make : α → Decl}
    {spell : α → α}
    (hpick : ∀ decl,
      (pick decl).map make = if DeclKind.of decl = kind then some decl else none)
    (hspell : ∀ item, (make item).Respelled (make (spell item))) (decls : List Decl) :
    List.Forall₂ Respelled (kind.among decls)
      (((decls.filterMap pick).map spell).map make) := by
  have hamong : kind.among decls = (decls.filterMap pick).map make := by
    rw [DeclKind.among, ← filterMap_eq_filter, map_filterMap]
    congr 1
    funext decl
    rw [hpick]
    simp [Option.guard]
  rw [hamong, map_map, forall₂_map_left_iff, forall₂_map_right_iff, forall₂_same]
  exact fun item _ => hspell item

/-- **The groups of a bundle.** -/
theorem respelled_group (decls : List Decl) (defines : List Define) (kind : DeclKind) :
    List.Forall₂ Respelled (outside decls defines kind ++ kind.among decls)
      ((ofDecls decls defines).group kind) := by
  cases kind with
  | const =>
    rw [group, ofDecls, map_append, map_append, ← map_outsideConsts]
    refine rel_append ?_ (forall₂_picked ?_ ?_ decls)
    · rw [map_map, forall₂_map_left_iff, forall₂_map_right_iff, forall₂_same]
      exact fun decl _ => respelled_mapValues (.const decl)
    · intro decl
      cases decl <;> rfl
    · exact fun decl => respelled_mapValues (.const decl)
  | enum | struct | union | typeDef | program =>
    refine forall₂_picked (fun decl => ?_) ?_ decls
    · cases decl <;> rfl
    · exact fun decl => respelled_mapValues _

/-- Lists with the same declarations of each kind bear the same names. -/
theorem outside_eq_of_among_eq (h : ∀ kind : DeclKind, kind.among decls = kind.among others)
    (kind : DeclKind) : outside decls defines kind = outside others defines kind := by
  have hmem : ∀ decl, decl ∈ decls ↔ decl ∈ others := by
    intro decl
    have hkind := congrArg (decl ∈ ·) (h (.of decl))
    simpa [DeclKind.mem_among] using hkind
  cases kind with
  | const =>
    have hnames : ∀ name, (decls.all fun decl => decl.name ≠ name) = others.all fun decl =>
      decl.name ≠ name := by
      intro name
      rw [Bool.eq_iff_iff, all_eq_true, all_eq_true]
      exact forall_congr' fun decl => imp_congr_left (hmem decl)
    simp only [outside, hnames]
  | enum | struct | union | typeDef | program => rfl

/-- **A bundle is its declarations by kind.**  Each group holds the
declarations of the kind, in the order of the source, behind constants for
the integers from outside whose names nothing bears.  Nothing in them was
changed but literals, each into its canonical spelling, wherever it stands.
Lists of declarations that differ only in how different kinds follow each
other have the same bundle, and so the same emitted text or the same error. -/
theorem groups_of_ofDecls (decls : List Decl) (defines : List Define) :
    (∀ kind : DeclKind,
      List.Forall₂ Decl.Respelled (outside decls defines kind ++ kind.among decls)
        ((ofDecls decls defines).group kind)) ∧
    ∀ others : List Decl, (∀ kind : DeclKind, kind.among decls = kind.among others) →
      ofDecls decls defines = ofDecls others defines ∧
        ∀ options, Emit.render options (ofDecls decls defines) =
          Emit.render options (ofDecls others defines) := by
  refine ⟨respelled_group decls defines, fun others hamong => ?_⟩
  have hbundle : ofDecls decls defines = ofDecls others defines := by
    refine eq_of_group_eq fun kind =>
      Decl.Respelled.unique_list (respelled_group decls defines kind) ?_
    rw [outside_eq_of_among_eq hamong, hamong]
    exact respelled_group others defines kind
  exact ⟨hbundle, fun options => by rw [hbundle]⟩

/-- A declaration of each kind, with the same literal wherever one can
stand. -/
def octalDecls : List Decl :=
  [.const ⟨"C", .literal "010"⟩,
   .enum ⟨"E", [⟨"A", .literal "010"⟩, ⟨"B", .literal "010"⟩]⟩,
   .struct ⟨"S", [⟨"x", .int, .array (some (.literal "010")) true⟩]⟩,
   .union ⟨"U", ⟨.int, "d"⟩,
     [⟨.value (.literal "010"), some .int, some "y", .array (some (.literal "010")) false⟩]⟩,
   .typeDef ⟨"T", .opaqueData, .array (some (.literal "010")) true⟩,
   .program ⟨"P", .literal "010",
     [⟨"V", .literal "010", [⟨.literal "010", "f", .void, .void⟩]⟩]⟩]

/-- The declarations may as well be reversed, every literal is respelled,
and of two integers from outside the one whose name is not declared becomes
a constant. -/
theorem groups_of_ofDecls_octalDecls :
    ofDecls octalDecls [⟨"type", .int "+7"⟩, ⟨"C", .int "9"⟩] =
        ofDecls octalDecls.reverse [⟨"type", .int "+7"⟩, ⟨"C", .int "9"⟩] ∧
      (ofDecls octalDecls [⟨"type", .int "+7"⟩, ⟨"C", .int "9"⟩]).consts =
        [⟨"type_", .literal "7"⟩, ⟨"C", .literal "0o10"⟩] ∧
      ((ofDecls octalDecls []).group .union).flatMap Decl.values =
        [.literal "0o10", .literal "0o10"] := by
  have hamong : ∀ kind : DeclKind, kind.among octalDecls = kind.among octalDecls.reverse := by
    intro kind
    cases kind <;> decide
  obtain ⟨-, horder⟩ := groups_of_ofDecls octalDecls [⟨"type", .int "+7"⟩, ⟨"C", .int "9"⟩]
  exact ⟨(horder _ hamong).1, by decide, by decide⟩

end Bundle
end Xdr
