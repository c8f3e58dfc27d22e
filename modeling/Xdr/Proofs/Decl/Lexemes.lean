import Xdr.Proofs.Decl.Grammar
import Xdr.Proofs.Decl.Recognition

/-!
# The names and literals of a declaration

Whatever a declaration names or counts with stands in its text: every name
and every literal in it is one of the lexemes that it was read from.

## Main Statements

* `Grammar.OneOrMore.exists_of_mem`, `Grammar.File.exists_of_mem` — every
  item of a list, and every declaration of a file, has tokens of its own
* `Grammar.DeclOf.forall_lexemes` — what holds of its tokens holds of a
  declaration's names and literals
* `Grammar.File.lexemes_subset` — these are lexemes of the file
* `Decl.lexeme_mem`, `Grammar.File.literal_mem` — in particular a literal
  that is an integer of a declaration
* `Grammar.File.exists_field` — an array in a case of a union belongs to a
  field
-/

namespace Xdr

open Form List

/-! ### Names and literals -/

/-- The length or bound of an array, if it has one. -/
def Form.lengths : Form → List IntExpr
  | .array length _ => length.toList
  | _ => []

/-- The lexeme that an integer is written as. -/
def IntExpr.lexeme : IntExpr → Lexeme
  | .literal text => .literal text
  | .name n => .word n

/-- The name of a declared type. -/
def TypeRef.lexemes : TypeRef → List Lexeme
  | .named name => [.word name]
  | _ => []

/-- The lexeme of a label, unless it is the default. -/
def Label.lexemes : Label → List Lexeme
  | .value v => [v.lexeme]
  | .otherwise => []

/-- The length of an array as a lexeme. -/
def Form.lexemes (form : Form) : List Lexeme :=
  form.lengths.map IntExpr.lexeme

/-- The names and literals of a field. -/
def Field.lexemes (field : Field) : List Lexeme :=
  .word field.name :: (field.type.lexemes ++ field.form.lexemes)

/-- The name and the value of a member. -/
def EnumMember.lexemes (member : EnumMember) : List Lexeme :=
  [.word member.name, member.value.lexeme]

/-- The names and literals of a case. -/
def Case.lexemes (case : Case) : List Lexeme :=
  case.label.lexemes ++ case.type.toList.flatMap TypeRef.lexemes ++
    case.name.toList.map .word ++
    case.form.lexemes

/-- The names and literals of a procedure. -/
def ProcDecl.lexemes (proc : ProcDecl) : List Lexeme :=
  [.word proc.name, proc.id.lexeme] ++ proc.arg.lexemes ++ proc.res.lexemes

/-- The names and literals of a version. -/
def VersionDecl.lexemes (version : VersionDecl) : List Lexeme :=
  [.word version.name, version.number.lexeme] ++ version.procs.flatMap ProcDecl.lexemes

/-- The names and literals of a declaration. -/
def Decl.lexemes : Decl → List Lexeme
  | .const decl => [.word decl.name, decl.value.lexeme]
  | .enum decl => .word decl.name :: decl.members.flatMap EnumMember.lexemes
  | .struct decl => .word decl.name :: decl.fields.flatMap Field.lexemes
  | .union decl =>
    [.word decl.name, .word decl.discriminant.name] ++ decl.discriminant.type.lexemes ++
      decl.cases.flatMap Case.lexemes
  | .typeDef field => field.lexemes
  | .program decl =>
    [.word decl.name, decl.number.lexeme] ++ decl.versions.flatMap VersionDecl.lexemes

/-- The lexeme of a token, whatever its name is known as. -/
def Token.lexeme : Token → Lexeme
  | .identifier name | .typeName name | .constant name => .word name
  | .literal digits => .literal digits
  | .keyword word => .keyword word
  | .mark sign => .mark sign

theorem Symbols.lexeme_classify (symbols : Symbols) (lexeme : Lexeme) :
    (symbols.classify lexeme).lexeme = lexeme := by
  cases lexeme with
  | word name =>
    rw [classify]
    split <;> rfl
  | literal | keyword | mark => rfl

namespace Grammar

variable {tokens : List Token} {next token : Token} {decl : Decl}

/-! ### Lists -/

section Lists

variable {α : Type} {Item : Token → α → List Token → Prop} {items : List α} {item : α}

/-- Every item has tokens of its own. -/
theorem OneOrMore.exists_of_mem (h : OneOrMore Item next items tokens) (hmem : item ∈ items) :
    ∃ following part, Item following item part ∧ part ⊆ tokens := by
  induction h with
  | one hitem =>
    cases mem_singleton.mp hmem
    exact ⟨_, _, hitem, List.Subset.refl _⟩
  | more hitem _ ih =>
    rcases mem_cons.mp hmem with rfl | hlater
    · exact ⟨_, _, hitem, subset_append_left _ _⟩
    · obtain ⟨following, part, hpart, hsubset⟩ := ih hlater
      exact ⟨following, part, hpart, List.Subset.trans hsubset (subset_append_right _ _)⟩

theorem Block.exists_of_mem (h : Block Item items tokens) (hmem : item ∈ items) :
    ∃ following part, Item following item part ∧ part ⊆ tokens := by
  obtain ⟨hitems⟩ := h
  obtain ⟨following, part, hpart, hsubset⟩ := hitems.exists_of_mem hmem
  refine ⟨following, part, hpart, fun token htoken => ?_⟩
  exact mem_cons_of_mem _ (mem_append_left _ (hsubset htoken))

/-- What holds of the tokens of a block holds of what its items are written
with. -/
theorem Block.forall_lexemes {P : Lexeme → Prop} {lexemes : α → List Lexeme}
    (h : Block Item items tokens)
    (hitem : ∀ {following item part},
      Item following item part → (∀ token ∈ part, P token.lexeme) →
      ∀ lexeme ∈ lexemes item, P lexeme) (hP : ∀ token ∈ tokens, P token.lexeme) :
    ∀ lexeme ∈ items.flatMap lexemes, P lexeme := by
  refine forall_mem_flatMap.mpr fun item hmem => ?_
  obtain ⟨_, part, hpart, hsubset⟩ := h.exists_of_mem hmem
  exact hitem hpart fun token htoken => hP token (hsubset htoken)

end Lists

theorem MembersOf.exists_of_mem {members} (h : MembersOf members tokens) {member}
    (hmem : member ∈ members) : ∃ part, MemberOf member part ∧ part ⊆ tokens := by
  induction h with
  | one hmember =>
    cases mem_singleton.mp hmem
    exact ⟨_, hmember, List.Subset.refl _⟩
  | more hmember _ ih =>
    rcases mem_cons.mp hmem with rfl | hlater
    · exact ⟨_, hmember, subset_append_left _ _⟩
    · obtain ⟨part, hpart, hsubset⟩ := ih hlater
      refine ⟨part, hpart, fun token htoken => ?_⟩
      exact mem_append_right _ (mem_cons_of_mem _ (hsubset htoken))

/-! ### Parts of declarations -/

theorem NewName.lexeme_eq {name} (h : NewName name token) : token.lexeme = .word name := by
  cases h
  rfl

theorem LocalName.lexeme_eq {name} (h : LocalName name token) :
    token.lexeme = .word name := by
  cases h <;> rfl

theorem ValueOf.lexeme_eq {value} (h : ValueOf value token) :
    token.lexeme = value.lexeme := by
  cases h <;> rfl

section Parts

variable {P : Lexeme → Prop} (hP : ∀ token ∈ tokens, P token.lexeme)
include hP

theorem TypeOf.forall_lexemes {type : TypeRef} (h : TypeOf type tokens) :
    ∀ lexeme ∈ type.lexemes, P lexeme := by
  cases h with
  | @primitive keyword type hkeyword =>
    cases type with
    | named name => cases keyword <;> cases hkeyword
    | _ => exact fun _ hlexeme => absurd hlexeme not_mem_nil
  | unsigned | unsignedInt | unsignedLong | unsignedHyper =>
    exact fun _ hlexeme => absurd hlexeme not_mem_nil
  | named hname | struct hname =>
    refine forall_mem_singleton.mpr ?_
    rw [← hname.lexeme_eq]
    exact hP _ (by simp)

theorem SuffixOf.forall_lexemes {form} (h : SuffixOf form tokens) :
    ∀ lexeme ∈ form.lexemes, P lexeme := by
  cases h with
  | plain => exact fun _ hlexeme => absurd hlexeme not_mem_nil
  | fixed hlength | bounded hlength =>
    cases hlength with
    | none => exact fun _ hlexeme => absurd hlexeme not_mem_nil
    | some hvalue =>
      simp only [forall_mem_cons, forall_mem_append, hvalue.lexeme_eq] at hP
      simpa [lexemes, lengths] using hP.2.1

theorem FieldOf.forall_lexemes {Name field} (h : FieldOf Name field tokens)
    (hname : ∀ {name token}, Name name token → token.lexeme = .word name) :
    ∀ lexeme ∈ field.lexemes, P lexeme := by
  obtain ⟨htype, htail⟩ := h
  rw [forall_mem_append] at hP
  have htype := htype.forall_lexemes hP.1
  rw [Field.lexemes, forall_mem_cons, forall_mem_append]
  cases htail with
  | pointer htoken =>
    simp only [forall_mem_cons, hname htoken] at hP
    exact ⟨hP.2.2.1, htype, fun _ hlexeme => absurd hlexeme not_mem_nil⟩
  | held htoken hform =>
    simp only [forall_mem_cons, hname htoken] at hP
    exact ⟨hP.2.1, htype, hform.forall_lexemes hP.2.2⟩

theorem MemberOf.forall_lexemes {member} (h : MemberOf member tokens) :
    ∀ lexeme ∈ member.lexemes, P lexeme := by
  obtain ⟨hname, hvalue⟩ := h
  simp only [forall_mem_cons, hname.lexeme_eq, hvalue.lexeme_eq] at hP
  simpa [EnumMember.lexemes] using ⟨hP.1, hP.2.2.1⟩

theorem LabelOf.forall_lexemes {label} (h : LabelOf label tokens) :
    ∀ lexeme ∈ label.lexemes, P lexeme := by
  cases h with
  | value hvalue =>
    simp only [forall_mem_cons, hvalue.lexeme_eq] at hP
    simpa [Label.lexemes] using hP.2.1
  | otherwise => exact fun _ hlexeme => absurd hlexeme not_mem_nil

theorem ArmOf.forall_lexemes {label case} (h : ArmOf label next case tokens)
    (hlabel : ∀ lexeme ∈ label.lexemes, P lexeme) : ∀ lexeme ∈ case.lexemes, P lexeme := by
  simp only [Case.lexemes, forall_mem_append]
  cases h with
  | empty => exact ⟨⟨⟨hlabel, by simp⟩, by simp⟩, by simp [lexemes, lengths]⟩
  | type _ htype =>
    have htype := htype.forall_lexemes hP
    exact ⟨⟨⟨hlabel, by simpa using htype⟩, by simp⟩, by simp [lexemes, lengths]⟩
  | field hfield =>
    have hfield := hfield.forall_lexemes hP LocalName.lexeme_eq
    rw [Field.lexemes, forall_mem_cons, forall_mem_append] at hfield
    exact ⟨⟨⟨hlabel, by simpa using hfield.2.1⟩, by simpa using hfield.1⟩, hfield.2.2⟩

theorem CaseOf.forall_lexemes {case} (h : CaseOf next case tokens) :
    ∀ lexeme ∈ case.lexemes, P lexeme := by
  cases h with
  | bare hlabel harm =>
    rw [forall_mem_append, forall_mem_cons] at hP
    exact harm.forall_lexemes hP.2.2 (hlabel.forall_lexemes hP.1)
  | closed hlabel harm =>
    rw [forall_mem_append, forall_mem_cons, forall_mem_append] at hP
    exact harm.forall_lexemes hP.2.2.1 (hlabel.forall_lexemes hP.1)

theorem ProcOf.forall_lexemes {proc} (h : ProcOf proc tokens) :
    ∀ lexeme ∈ proc.lexemes, P lexeme := by
  obtain ⟨hres, hname, harg, hid⟩ := h
  simp only [forall_mem_append, forall_mem_cons, hname.lexeme_eq, hid.lexeme_eq] at hP
  simp only [ProcDecl.lexemes, forall_mem_append, forall_mem_cons]
  obtain ⟨hfront, hword, -, hback, -, -, hnumber, -⟩ := hP
  exact ⟨⟨⟨hword, hnumber, by simp⟩, harg.forall_lexemes hback⟩, hres.forall_lexemes hfront⟩

theorem VersionOf.forall_lexemes {version : VersionDecl} (h : VersionOf version tokens) :
    ∀ lexeme ∈ version.lexemes, P lexeme := by
  obtain ⟨hname, hprocs, hvalue⟩ := h
  simp only [forall_mem_append, forall_mem_cons, hname.lexeme_eq, hvalue.lexeme_eq] at hP
  simp only [VersionDecl.lexemes, forall_mem_append, forall_mem_cons]
  obtain ⟨-, hword, hbody, -, hnumber, -⟩ := hP
  exact ⟨⟨hword, hnumber, by simp⟩,
    hprocs.forall_lexemes (fun hproc hpart => hproc.forall_lexemes hpart) hbody⟩

/-- **What holds of its tokens holds of a declaration's names and
literals.** -/
theorem DeclOf.forall_lexemes (h : DeclOf decl tokens) :
    ∀ lexeme ∈ decl.lexemes, P lexeme := by
  cases h with
  | const hname hvalue =>
    simp only [forall_mem_cons, hname.lexeme_eq, hvalue.lexeme_eq] at hP
    simpa [Decl.lexemes] using ⟨hP.2.1, hP.2.2.2.1⟩
  | enum hname hmembers =>
    simp only [forall_mem_append, forall_mem_cons, hname.lexeme_eq] at hP
    refine forall_mem_cons.mpr ⟨hP.2.1, forall_mem_flatMap.mpr fun member hmember => ?_⟩
    obtain ⟨part, hpart, hsubset⟩ := hmembers.exists_of_mem hmember
    exact hpart.forall_lexemes fun token htoken => hP.2.2.2.1 token (hsubset htoken)
  | struct hname hfields =>
    simp only [forall_mem_cons, hname.lexeme_eq] at hP
    refine forall_mem_cons.mpr ⟨hP.2.1, hfields.forall_lexemes ?_ hP.2.2⟩
    rintro _ field _ ⟨hfield⟩ hpart
    exact hfield.forall_lexemes (forall_mem_append.mp hpart).1 LocalName.lexeme_eq
  | typeDef hfield =>
    exact hfield.forall_lexemes (forall_mem_cons.mp hP).2 NewName.lexeme_eq
  | union hname htype htag hcases =>
    simp only [forall_mem_append, forall_mem_cons, hname.lexeme_eq, htag.lexeme_eq] at hP
    simp only [Decl.lexemes, forall_mem_append, forall_mem_cons]
    obtain ⟨-, hword, -, -, hfront, hdiscriminant, -, hback⟩ := hP
    exact ⟨⟨⟨hword, hdiscriminant, by simp⟩, htype.forall_lexemes hfront⟩,
      hcases.forall_lexemes (fun hcase hpart => hcase.forall_lexemes hpart) hback⟩
  | program hname hversions hvalue =>
    simp only [forall_mem_append, forall_mem_cons, hname.lexeme_eq, hvalue.lexeme_eq] at hP
    simp only [Decl.lexemes, forall_mem_append, forall_mem_cons]
    obtain ⟨-, hword, hbody, -, hnumber, -⟩ := hP
    exact ⟨⟨hword, hnumber, by simp⟩,
      hversions.forall_lexemes (fun hversion hpart => hversion.forall_lexemes hpart) hbody⟩

end Parts

/-! ### Files -/

section Files

variable {symbols : Symbols} {decls : List Decl} {lexemes : List Lexeme}
    (h : File symbols decls lexemes)
include h

/-- Every declaration has lexemes of its own. -/
theorem File.exists_of_mem (hmem : decl ∈ decls) :
    ∃ (known : Symbols) (front : List Lexeme),
    DeclOf decl (front.map known.classify) ∧ front ⊆ lexemes := by
  induction h with
  | @one symbols _ lexemes hdecl =>
    cases mem_singleton.mp hmem
    exact ⟨symbols, lexemes, hdecl, subset_append_left _ _⟩
  | @more symbols _ _ lexemes _ hdecl _ ih =>
    rcases mem_cons.mp hmem with rfl | hlater
    · exact ⟨symbols, lexemes, hdecl, subset_append_left _ _⟩
    · obtain ⟨known, front, hfront, hsubset⟩ := ih hlater
      refine ⟨known, front, hfront, fun lexeme hlexeme => ?_⟩
      exact mem_append_right _ (mem_cons_of_mem _ (hsubset hlexeme))

/-- **The names and literals of a declaration are lexemes of the file.** -/
theorem File.lexemes_subset (hmem : decl ∈ decls) : decl.lexemes ⊆ lexemes := by
  obtain ⟨known, front, hfront, hsubset⟩ := h.exists_of_mem hmem
  refine hfront.forall_lexemes (forall_mem_map.mpr fun lexeme hlexeme => ?_)
  rw [known.lexeme_classify]
  exact hsubset hlexeme

end Files

end Grammar

/-! ### The integers of a declaration -/

/-- The lengths and bounds in a structure. -/
def StructDecl.lengths (decl : StructDecl) : List IntExpr :=
  decl.fields.flatMap fun field => field.form.lengths

/-- The lengths and bounds in a union. -/
def UnionDecl.lengths (decl : UnionDecl) : List IntExpr :=
  decl.cases.flatMap fun case => case.form.lengths

/-- The numbers of a program, its versions and their procedures. -/
def ProgramDecl.numbers (decl : ProgramDecl) : List IntExpr :=
  decl.number :: decl.versions.flatMap fun version =>
    version.number :: version.procs.map ProcDecl.id

/-- The integers of a declaration, the labels of cases apart. -/
def Decl.integers : Decl → List IntExpr
  | .const decl => [decl.value]
  | .enum decl => decl.members.map EnumMember.value
  | .struct decl => decl.lengths
  | .union decl => decl.lengths
  | .typeDef field => field.form.lengths
  | .program decl => decl.numbers

theorem Form.lexeme_mem {form : Form} {value} (h : value ∈ form.lengths) :
    value.lexeme ∈ form.lexemes :=
  mem_map_of_mem h

theorem VersionDecl.lexeme_mem {version : VersionDecl} {value}
    (h : value ∈ version.number :: version.procs.map ProcDecl.id) :
    value.lexeme ∈ version.lexemes := by
  rw [lexemes]
  rcases mem_cons.mp h with rfl | hid
  · exact mem_append_left _ (by simp)
  · obtain ⟨proc, hproc, rfl⟩ := mem_map.mp hid
    refine mem_append_right _ (mem_flatMap.mpr ⟨proc, hproc, ?_⟩)
    simp [ProcDecl.lexemes]

theorem Decl.lexeme_mem {decl : Decl} {value} (h : value ∈ decl.integers) :
    value.lexeme ∈ decl.lexemes := by
  cases decl with
  | const decl =>
    cases mem_singleton.mp h
    simp [lexemes]
  | enum decl =>
    obtain ⟨member, hmember, rfl⟩ := mem_map.mp h
    refine mem_cons_of_mem _ (mem_flatMap.mpr ⟨member, hmember, ?_⟩)
    simp [EnumMember.lexemes]
  | struct decl =>
    obtain ⟨field, hfield, hlength⟩ := mem_flatMap.mp h
    refine mem_cons_of_mem _ (mem_flatMap.mpr ⟨field, hfield, ?_⟩)
    simp [Field.lexemes, Form.lexeme_mem hlength]
  | union decl =>
    obtain ⟨case, hcase, hlength⟩ := mem_flatMap.mp h
    refine mem_append_right _ (mem_flatMap.mpr ⟨case, hcase, ?_⟩)
    simp [Case.lexemes, Form.lexeme_mem hlength]
  | typeDef field => simp [lexemes, Field.lexemes, Form.lexeme_mem h]
  | program decl =>
    rcases mem_cons.mp h with rfl | hversion
    · simp [lexemes]
    · obtain ⟨version, hversion, hvalue⟩ := mem_flatMap.mp hversion
      exact mem_append_right _ (mem_flatMap.mpr ⟨version, hversion,
        version.lexeme_mem hvalue⟩)

namespace Grammar

variable {tokens : List Token} {case : Case} {value : IntExpr}

/-- An array in the arm of a case belongs to a field. -/
theorem ArmOf.exists_field {label next} (h : ArmOf label next case tokens)
    (hlength : value ∈ case.form.lengths) :
    ∃ field, case.field? = some field ∧ field.form = case.form := by
  cases h with
  | empty _ | type _ _ => cases hlength
  | @field field _ _ => exact ⟨field, rfl, rfl⟩

theorem CaseOf.exists_field {next} (h : CaseOf next case tokens)
    (hlength : value ∈ case.form.lengths) :
    ∃ field, case.field? = some field ∧ field.form = case.form := by
  cases h with
  | bare _ harm | closed _ harm => exact harm.exists_field hlength

/-! ### Files -/

section Files

variable {symbols : Symbols} {decls : List Decl} {lexemes : List Lexeme}
    (h : File symbols decls lexemes)
include h

/-- **A literal of a declaration is a lexeme of the file.** -/
theorem File.literal_mem {decl : Decl} {text : String} (hmem : decl ∈ decls)
    (hliteral : .literal text ∈ decl.integers) : .literal text ∈ lexemes :=
  h.lexemes_subset hmem (decl.lexeme_mem hliteral)

/-- An array in a case of a union belongs to a field. -/
theorem File.exists_field {decl} (hmem : .union decl ∈ decls) (hcase : case ∈ decl.cases)
    (hlength : value ∈ case.form.lengths) :
    ∃ field, case.field? = some field ∧ field.form = case.form := by
  obtain ⟨known, front, hfront, _⟩ := h.exists_of_mem hmem
  generalize front.map known.classify = tokens at hfront
  cases hfront with
  | union _ _ _ hcases =>
    obtain ⟨_, _, hpart, _⟩ := hcases.exists_of_mem hcase
    exact hpart.exists_field hlength

end Files

end Grammar
end Xdr
