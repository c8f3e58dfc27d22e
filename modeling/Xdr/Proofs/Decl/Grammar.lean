import Xdr.Decl.Basic
import Xdr.Symbols

/-!
# The grammar of interface definitions

Which sequences of tokens spell which declarations.  Every rule of the
grammar is a predicate on what is spelled and the tokens that spell it, and
tokens are only ever put one after the other: nothing here says in which
order they are looked at.

A name is classified by the declarations that end before it.  A declaration
is not known inside of itself, so the tokens of one statement are all
classified by the same table, and only `File` has to thread it.

## Design Notes

Two rules depend on what comes next: the arm of a case may be empty or a
type alone only before certain tokens.  So the rules for cases have the
token after them as a parameter, and `OneOrMore` hands it on.
-/

namespace Xdr

namespace Grammar

/-! ### Names and integers -/

/-- The name of a new declaration: one that is not known yet. -/
inductive NewName : String → Token → Prop where
  | identifier (name : String) : NewName name (.identifier name)

/-- The name of something that is known in its place only. -/
inductive LocalName : String → Token → Prop where
  | identifier (name : String) : LocalName name (.identifier name)
  | typeName (name : String) : LocalName name (.typeName name)

theorem localName_iff {name token} :
    LocalName name token ↔ token = .identifier name ∨ token = .typeName name := by
  constructor
  · rintro (_ | _) <;> simp
  · rintro (rfl | rfl)
    · exact .identifier name
    · exact .typeName name

/-- An integer: a literal, a constant, or a name that is yet to be declared.
-/
inductive ValueOf : IntExpr → Token → Prop where
  | literal (text : String) : ValueOf (.literal text) (.literal text)
  | constant (name : String) : ValueOf (.name name) (.constant name)
  | identifier (name : String) : ValueOf (.name name) (.identifier name)

theorem valueOf_iff {value token} :
    ValueOf value token ↔ (∃ text, token = .literal text ∧ value = .literal text) ∨
      ∃ name, (token = .constant name ∨ token = .identifier name) ∧ value = .name name := by
  constructor
  · rintro (_ | _ | _) <;> simp
  · rintro (⟨text, rfl, rfl⟩ | ⟨name, rfl | rfl, rfl⟩)
    · exact .literal text
    · exact .constant name
    · exact .identifier name

/-! ### Types and fields -/

/-- The primitive type that one keyword spells. -/
def primitive? : Keyword → Option TypeRef
  | .int => some .int
  | .long => some .int
  | .hyper => some .hyper
  | .float => some .float
  | .double => some .double
  | .bool => some .bool
  | .string => some .string
  | .opaqueData => some .opaqueData
  | .netobj => some .netobj
  | .void => some .void
  | _ => none

/-- A type. -/
inductive TypeOf : TypeRef → List Token → Prop where
  | primitive {keyword} {type : TypeRef} (h : primitive? keyword = some type) :
      TypeOf type [.keyword keyword]
  | unsigned : TypeOf .uint [.keyword .unsigned]
  | unsignedInt : TypeOf .uint [.keyword .unsigned, .keyword .int]
  | unsignedLong : TypeOf .uint [.keyword .unsigned, .keyword .long]
  | unsignedHyper : TypeOf .uhyper [.keyword .unsigned, .keyword .hyper]
  | named {name token} (h : LocalName name token) : TypeOf (.named name) [token]
  | struct {name token} (h : LocalName name token) :
      TypeOf (.named name) [.keyword .struct, token]

theorem typeOf_cons {type : TypeRef} {token tokens} :
    TypeOf type (token :: tokens) ↔
      (tokens = [] ∧ ∃ keyword, token = .keyword keyword ∧ primitive? keyword = some type) ∨
      (token = .keyword .unsigned ∧ (tokens = [] ∧ type = .uint ∨
        tokens = [.keyword .int] ∧ type = .uint ∨ tokens = [.keyword .long] ∧ type = .uint ∨
        tokens = [.keyword .hyper] ∧ type = .uhyper)) ∨
      (tokens = [] ∧ ∃ name, LocalName name token ∧ type = .named name) ∨
      (token = .keyword .struct ∧ ∃ other, tokens = [other] ∧
        ∃ name, LocalName name other ∧ type = .named name) := by
  constructor
  · rintro (h | _ | _ | _ | _ | h | h)
    · exact .inl ⟨rfl, _, rfl, h⟩
    · simp
    · simp
    · simp
    · simp
    · exact .inr (.inr (.inl ⟨rfl, _, h, rfl⟩))
    · exact .inr (.inr (.inr ⟨rfl, _, rfl, _, h, rfl⟩))
  · rintro (⟨rfl, keyword, rfl, h⟩ |
      ⟨rfl, ⟨rfl, rfl⟩ | ⟨rfl, rfl⟩ | ⟨rfl, rfl⟩ | ⟨rfl, rfl⟩⟩ |
      ⟨rfl, name, h, rfl⟩ | ⟨rfl, other, rfl, name, h, rfl⟩)
    · exact .primitive h
    · exact .unsigned
    · exact .unsignedInt
    · exact .unsignedLong
    · exact .unsignedHyper
    · exact .named h
    · exact .struct h

theorem TypeOf.start {type : TypeRef} {tokens} (h : TypeOf type tokens) :
    ∃ first back, tokens = first :: back ∧ ∀ mark, first ≠ .mark mark := by
  cases h with
  | primitive _ | unsigned | unsignedInt | unsignedLong | unsignedHyper | struct _ =>
    exact ⟨_, _, rfl, nofun⟩
  | named hname =>
    cases hname with
    | identifier | typeName => exact ⟨_, _, rfl, nofun⟩

/-- A length, which may be left out. -/
inductive LengthOf : Option IntExpr → List Token → Prop where
  | none : LengthOf none []
  | some {value token} (h : ValueOf value token) : LengthOf (some value) [token]

/-- What follows a name that is not behind a pointer: nothing, or the length
of an array. -/
inductive SuffixOf : Form → List Token → Prop where
  | plain : SuffixOf .plain []
  | fixed {length tokens} (h : LengthOf length tokens) :
      SuffixOf (.array length true) (.mark .openSquare :: (tokens ++ [.mark .closeSquare]))
  | bounded {length tokens} (h : LengthOf length tokens) :
      SuffixOf (.array length false) (.mark .less :: (tokens ++ [.mark .greater]))

/-- What follows the type of a field, whose name is of the given kind. -/
inductive FieldTail (Name : String → Token → Prop) (type : TypeRef) :
    Field → List Token → Prop where
  | pointer {name token} (h : Name name token) :
      FieldTail Name type ⟨name, type, .pointer⟩ [.mark .times, token]
  | held {name token form tokens} (h : Name name token) (hform : SuffixOf form tokens) :
      FieldTail Name type ⟨name, type, form⟩ (token :: tokens)

/-- A field, whose name is of the given kind. -/
inductive FieldOf (Name : String → Token → Prop) : Field → List Token → Prop where
  | mk {type : TypeRef} {field front back} (htype : TypeOf type front)
      (htail : FieldTail Name type field back) : FieldOf Name field (front ++ back)

/-! ### Lists -/

/-- Items one after the other.  Each of them may depend on the token after
it, and `next` is the one after the last. -/
inductive OneOrMore {α : Type} (Item : Token → α → List Token → Prop) (next : Token) :
    List α → List Token → Prop where
  | one {item tokens} (h : Item next item tokens) : OneOrMore Item next [item] tokens
  | more {item items first tokens rest} (h : Item first item tokens)
      (hrest : OneOrMore Item next items (first :: rest)) :
      OneOrMore Item next (item :: items) (tokens ++ first :: rest)

/-- Items start with a token that starts an item. -/
theorem OneOrMore.start {α : Type} {Item : Token → α → List Token → Prop}
    {Start : Token → Prop}
    (hstart : ∀ {next item tokens}, Item next item tokens → ∃ first back,
      tokens = first :: back ∧ Start first)
    {next : Token} {items : List α} {tokens : List Token}
    (h : OneOrMore Item next items tokens) :
    ∃ first back, tokens = first :: back ∧ Start first := by
  cases h with
  | one hitem => exact hstart hitem
  | more hitem _ =>
    obtain ⟨first, back, rfl, hfirst⟩ := hstart hitem
    exact ⟨first, _, rfl, hfirst⟩

/-- Items between curly brackets. -/
inductive Block {α : Type} (Item : Token → α → List Token → Prop) :
    List α → List Token → Prop where
  | mk {items tokens} (h : OneOrMore Item (.mark .closeCurly) items tokens) :
      Block Item items (.mark .openCurly :: (tokens ++ [.mark .closeCurly]))

/-! ### The parts of declarations -/

/-- A member of an enumeration. -/
inductive MemberOf : EnumMember → List Token → Prop where
  | mk {name value token number} (hname : NewName name token) (hvalue :
    ValueOf value number) : MemberOf ⟨name, value⟩ [token, .mark .assign, number]

/-- Members with commas between them. -/
inductive MembersOf : List EnumMember → List Token → Prop where
  | one {member tokens} (h : MemberOf member tokens) : MembersOf [member] tokens
  | more {member members tokens rest} (h : MemberOf member tokens)
      (hrest : MembersOf members rest) :
      MembersOf (member :: members) (tokens ++ .mark .comma :: rest)

/-- A field of a structure. -/
inductive StructField : Field → List Token → Prop where
  | mk {field tokens} (h : FieldOf LocalName field tokens) :
      StructField field (tokens ++ [.mark .semicolon])

/-- The label of a case. -/
inductive LabelOf : Label → List Token → Prop where
  | value {value token} (h : ValueOf value token) :
      LabelOf (.value value) [.keyword .caseLabel, token]
  | otherwise : LabelOf .otherwise [.keyword .defaultLabel]

theorem LabelOf.start {label tokens} (h : LabelOf label tokens) :
    ∃ first back, tokens = first :: back ∧
      (first = .keyword .caseLabel ∨ first = .keyword .defaultLabel) := by
  cases h with
  | value _ => exact ⟨_, _, rfl, .inl rfl⟩
  | otherwise => exact ⟨_, _, rfl, .inr rfl⟩

/-- The arm of a case before the token `next`. -/
inductive ArmOf (label : Label) (next : Token) : Case → List Token → Prop where
  | empty (h : next ∈ [.mark .semicolon, .mark .closeCurly, .keyword .caseLabel,
    .keyword .defaultLabel]) : ArmOf label next ⟨label, none, none, .plain⟩ []
  | type {type : TypeRef} {tokens} (h : next ∈ [.mark .semicolon, .mark .closeCurly])
      (htype : TypeOf type tokens) : ArmOf label next ⟨label, some type, none, .plain⟩ tokens
  | field {field tokens} (h : FieldOf LocalName field tokens) :
      ArmOf label next ⟨label, some field.type, some field.name, field.form⟩ tokens

/-- A case before the token `next`, with or without a semicolon of its own. -/
inductive CaseOf (next : Token) : Case → List Token → Prop where
  | bare {label case front back} (hlabel : LabelOf label front)
      (harm : ArmOf label next case back) : CaseOf next case (front ++ .mark .colon :: back)
  | closed {label case front back} (hlabel : LabelOf label front)
      (harm : ArmOf label (.mark .semicolon) case back) :
      CaseOf next case (front ++ .mark .colon :: (back ++ [.mark .semicolon]))

/-- A procedure. -/
inductive ProcOf : ProcDecl → List Token → Prop where
  | mk {res arg : TypeRef} {name id token number front back} (hres : TypeOf res front)
      (hname : LocalName name token) (harg : TypeOf arg back) (hid : ValueOf id number) :
      ProcOf ⟨id, name, arg, res⟩ (front ++ token :: .mark .openParen ::
        (back ++ [.mark .closeParen, .mark .assign, number, .mark .semicolon]))

/-- A version of a program. -/
inductive VersionOf : VersionDecl → List Token → Prop where
  | mk {name number procs token value tokens} (hname : LocalName name token)
      (hprocs : Block (fun _ => ProcOf) procs tokens) (hnumber : ValueOf number value) :
      VersionOf ⟨name, number, procs⟩ (.keyword .version :: token ::
        (tokens ++ [.mark .assign, value, .mark .semicolon]))

/-! ### Declarations -/

/-- A declaration, without its semicolon. -/
inductive DeclOf : Decl → List Token → Prop where
  | const {name value token number} (hname : NewName name token)
      (hvalue : ValueOf value number) :
      DeclOf (.const ⟨name, value⟩) [.keyword .const, token, .mark .assign, number]
  | enum {name members token tokens} (hname : NewName name token)
      (hmembers : MembersOf members tokens) :
      DeclOf (.enum ⟨name, members⟩) (.keyword .enum :: token :: .mark .openCurly ::
        (tokens ++ [.mark .closeCurly]))
  | struct {name fields token tokens} (hname : NewName name token)
      (hfields : Block (fun _ => StructField) fields tokens) :
      DeclOf (.struct ⟨name, fields⟩) (.keyword .struct :: token :: tokens)
  | typeDef {field tokens} (h : FieldOf NewName field tokens) :
      DeclOf (.typeDef field) (.keyword .typeDef :: tokens)
  | union {name tag} {type : TypeRef} {cases token tagToken front back}
      (hname : NewName name token) (htype : TypeOf type front) (htag : LocalName tag tagToken)
      (hcases : Block CaseOf cases back) :
      DeclOf (.union ⟨name, ⟨type, tag⟩, cases⟩) (.keyword .union :: token ::
        .keyword .switch :: .mark .openParen ::
        (front ++ tagToken :: .mark .closeParen :: back))
  | program {name number versions token value tokens} (hname : LocalName name token)
      (hversions : Block (fun _ => VersionOf) versions tokens)
      (hnumber : ValueOf number value) :
      DeclOf (.program ⟨name, number, versions⟩) (.keyword .program :: token ::
        (tokens ++ [.mark .assign, value]))

/-- The keyword that a declaration starts with. -/
def keywordOf : Decl → Keyword
  | .const _ => .const
  | .enum _ => .enum
  | .struct _ => .struct
  | .union _ => .union
  | .typeDef _ => .typeDef
  | .program _ => .program

theorem DeclOf.eq_cons {decl tokens} (h : DeclOf decl tokens) :
    ∃ back, tokens = .keyword (keywordOf decl) :: back := by
  cases h <;> exact ⟨_, rfl⟩

end Grammar

/-- The names known after a declaration.  A program and the members of an
enumeration are not known by their names. -/
def Symbols.after (symbols : Symbols) : Decl → Symbols
  | .const decl =>
    { classes := symbols.classes.insert decl.name .constant
      constants := symbols.constants.insert decl.name decl.value.text }
  | .program _ => symbols
  | decl => { symbols with classes := symbols.classes.insert decl.name .type }

/-- A whole interface definition: declarations with their semicolons, each
classified by the names known before it. -/
inductive Grammar.File : Symbols → List Decl → List Lexeme → Prop where
  | one {symbols : Symbols} {decl} {lexemes : List Lexeme}
      (h : DeclOf decl (lexemes.map symbols.classify)) :
      File symbols [decl] (lexemes ++ [.mark .semicolon])
  | more {symbols : Symbols} {decl decls} {lexemes rest : List Lexeme}
      (h : DeclOf decl (lexemes.map symbols.classify))
      (hrest : File (symbols.after decl) decls rest) :
      File symbols (decl :: decls) (lexemes ++ .mark .semicolon :: rest)

theorem Grammar.File.ne_nil {symbols decls lexemes} (h : File symbols decls lexemes) :
    lexemes ≠ [] := by
  cases h <;> simp

end Xdr
