import Xdr.Decl.Basic
import Xdr.Symbols
import Xdr.Token.Lexer

/-!
# The parser

Reads lexemes as declarations, by recursive descent with one token of
lookahead.

## Design Notes

A name becomes known right after the last token of its declaration, so that
token's successors are read in its light. A type definition without a suffix
has to look at the next token to see that there is none; that token is
judged before the name is known.

The rules are the same whatever gives the tokens (`TokenSource`). A cursor
goes over lexemes that are all there, and judges them by the names known
whenever it looks at them.
-/

namespace Xdr

/-- What a rule of the grammar asks for, where that is not a single token. -/
inductive Expectation where
  | declaration
  | unionCase
  | structName
  | type
  | value
  | name
  deriving DecidableEq, Repr

/-- What can be wrong with a sequence of tokens. -/
inductive SyntaxError where
  /-- Another token has to stand here. -/
  | unexpected (expected found : Token)
  /-- Something else has to stand here. -/
  | expected (what : Expectation) (found : Token)
  /-- The name is already known as a type or constant. -/
  | redeclared (name : String)
  /-- More tokens have to follow. -/
  | endOfInput
  deriving DecidableEq, Repr

namespace Expectation

/-- An expectation as messages show it. -/
def text : Expectation → String
  | .declaration => "a declaration"
  | .unionCase => "`case` or `default`"
  | .structName => "a struct name"
  | .type => "a type"
  | .value => "an integer or constant"
  | .name => "an identifier"

end Expectation

namespace SyntaxError

/-- The message of a syntax error. -/
def message : SyntaxError → String
  | .unexpected token found =>
    "Expected " ++ token.text ++ ", found " ++ found.text ++ " instead"
  | .expected what found => "Expected " ++ what.text ++ ", found " ++ found.text ++ " instead"
  | .redeclared name => Token.ticked name ++ " is already declared"
  | .endOfInput => "Abrupt end of input"

end SyntaxError

namespace Parser

/-- A step of parsing with states `σ`: it moves on, or fails with `ε`. -/
abbrev Rule (σ ε : Type) := StateT σ (Except ε)

/-- What the rules of the grammar are run on: something that gives tokens,
one at a time, in the light of the names known. -/
class TokenSource (σ : Type) (ε : outParam Type) where
  /-- The names known. -/
  symbols : σ → Symbols
  /-- Changes the names known. -/
  know : Symbols → σ → σ
  /-- There are no more tokens left than this. -/
  limit : σ → Nat
  /-- The next token, which stays where it is. -/
  peek : Rule σ ε (Option Token)
  /-- Reads the next token. -/
  next : Rule σ ε (Located Token)
  /-- Takes note that the given token has to be next, as far as it can be
  seen already, before names become known. -/
  ahead : Token → Rule σ ε Unit
  /-- A failure at the last token read. -/
  failure : SyntaxError → σ → ε
  /-- The failure of a new name that is known already. -/
  known : Located String → σ → ε
  /-- What is done where a name that is to be made known is taken. -/
  taken : Located String → Rule σ ε Unit

export TokenSource (peek next ahead)

/-! ### Lexemes as a source of tokens -/

/-- The lexemes left, the names known so far, and the place of the last
token read. -/
structure Cursor where
  rest : List (Located Lexeme)
  symbols : Symbols
  last : Span

namespace Cursor

/-- The next token, which is judged whenever it is looked at. -/
def peek (cursor : Cursor) : Option Token :=
  cursor.rest.head?.map fun lexeme => cursor.symbols.classify lexeme.value

/-- Reads the next token. -/
def next (cursor : Cursor) : Except (Located SyntaxError) (Located Token × Cursor) :=
  match cursor.rest with
  | [] => .error ⟨cursor.last, .endOfInput⟩
  | lexeme :: rest =>
    .ok (⟨lexeme.span, cursor.symbols.classify lexeme.value⟩,
      { cursor with rest := rest, last := lexeme.span })

/-- Fails if the next token is there but is not the given one. Since the
token is not kept, this is the last chance to judge it in the light of the
names known so far. -/
def ahead (token : Token) (cursor : Cursor) : Except (Located SyntaxError) (Unit × Cursor) :=
  match cursor.rest with
  | [] => .ok ((), cursor)
  | lexeme :: _ =>
    let found := cursor.symbols.classify lexeme.value
    if found = token then .ok ((), cursor) else .error ⟨lexeme.span, .unexpected token found⟩

end Cursor

/-- The failure of a name that is declared already. -/
def redeclared (name : Located String) : Located SyntaxError :=
  ⟨name.span, .redeclared name.value⟩

instance : TokenSource Cursor (Located SyntaxError) where
  symbols := Cursor.symbols
  know symbols cursor := { cursor with symbols := symbols }
  limit cursor := cursor.rest.length
  peek cursor := .ok (cursor.peek, cursor)
  next := Cursor.next
  ahead := Cursor.ahead
  failure error cursor := ⟨cursor.last, error⟩
  known name _ := redeclared name
  taken name _ := .error (redeclared name)

/-- A step of parsing lexemes: it moves the cursor or fails at a place. -/
abbrev Parse := Rule Cursor (Located SyntaxError)

/-! ### The rules of the grammar -/

section Rules

variable {σ ε : Type} [TokenSource σ ε]

/-- Fails at the last token read. -/
def fail {α : Type} (error : SyntaxError) : Rule σ ε α :=
  fun state => .error (TokenSource.failure error state)

/-- Fails for a new name that is known already. -/
def refuse {α : Type} (name : Located String) : Rule σ ε α :=
  fun state => .error (TokenSource.known name state)

/-- Reads the next token if it is the given one. -/
def eat (token : Token) : Rule σ ε Bool := do
  if (← peek) = some token then
    let _ ← next
    return true
  else return false

/-- Reads the given token. -/
def expect (token : Token) : Rule σ ε Unit := do
  let found ← next
  if found.value = token then return ()
  else fail (.unexpected token found.value)

/-- At most `limit` times `item`, at least once, and again as long as `more`
says so. -/
def repeated {α : Type} (item : Rule σ ε α) (more : Rule σ ε Bool) : Nat → Rule σ ε (List α)
  | 0 => fail .endOfInput
  | limit + 1 => do
    let first ← item
    if ← more then return first :: (← repeated item more limit)
    else return [first]

/-- One `item`, and others as long as `more` says so. An item takes at least
one token, so the tokens left limit how many there can be. -/
def oneOrMore {α : Type} (item : Rule σ ε α) (more : Rule σ ε Bool) : Rule σ ε (List α) :=
  fun state => repeated item more (TokenSource.limit state) state

/-- Goes on unless the given token closes the list. -/
def untilToken (token : Token) : Rule σ ε Bool := do
  return !(← eat token)

/-- The name of a new declaration, which must not be known yet. -/
def newName : Rule σ ε (Located String) := do
  let token ← next
  match token.value with
  | .identifier name => return ⟨token.span, name⟩
  | .typeName name => refuse ⟨token.span, name⟩
  | .constant name => refuse ⟨token.span, name⟩
  | found => fail (.expected .name found)

/-- The name of a field, discriminant, program, version or procedure. -/
def localName : Rule σ ε String := do
  match (← next).value with
  | .identifier name => return name
  | .typeName name => return name
  | found => fail (.expected .name found)

/-- An integer: a literal, a constant, or a name that is yet to be declared.
-/
def intExpr : Rule σ ε IntExpr := do
  match (← next).value with
  | .literal text => return .literal text
  | .constant name => return .name name
  | .identifier name => return .name name
  | found => fail (.expected .value found)

/-- The rest of a type that starts with `unsigned`. -/
def unsignedType : Rule σ ε TypeRef := do
  if ← eat (.keyword .hyper) then return .uhyper
  else if ← eat (.keyword .int) then return .uint
  else if ← eat (.keyword .long) then return .uint
  else return .uint

/-- The rest of a type that starts with `struct`. -/
def structType : Rule σ ε TypeRef := do
  match (← next).value with
  | .identifier name => return .named name
  | .typeName name => return .named name
  | found => fail (.expected .structName found)

/-- A type. -/
def typeRef : Rule σ ε TypeRef := do
  match (← next).value with
  | .identifier name => return .named name
  | .typeName name => return .named name
  | .keyword .int => return .int
  | .keyword .long => return .int
  | .keyword .hyper => return .hyper
  | .keyword .float => return .float
  | .keyword .double => return .double
  | .keyword .bool => return .bool
  | .keyword .string => return .string
  | .keyword .opaqueData => return .opaqueData
  | .keyword .netobj => return .netobj
  | .keyword .void => return .void
  | .keyword .unsigned => unsignedType
  | .keyword .struct => structType
  | found => fail (.expected .type found)

/-- The length of an array and its closing token. -/
def arrayLength (close : Token) : Rule σ ε (Option IntExpr) := do
  if ← eat close then return none
  else
    let length ← intExpr
    expect close
    return some length

/-- What may follow a name: `[N]`, `[]`, `<N>`, `<>` or nothing. -/
def suffix : Rule σ ε Form := do
  if ← eat (.mark .openSquare) then return .array (← arrayLength (.mark .closeSquare)) true
  else if ← eat (.mark .less) then return .array (← arrayLength (.mark .greater)) false
  else return .plain

/-- The rest of a field after its type. -/
def fieldAfter (type : TypeRef) : Rule σ ε Field := do
  if ← eat (.mark .times) then return ⟨← localName, type, .pointer⟩
  else
    let name ← localName
    return ⟨name, type, ← suffix⟩

/-- A field. -/
def field : Rule σ ε Field := do
  fieldAfter (← typeRef)

/-- Makes a name known as a type. -/
def register (name : Located String) : Rule σ ε Unit :=
  fun state =>
    match (TokenSource.symbols state).declare name.value .type with
    | .ok symbols => .ok ((), TokenSource.know symbols state)
    | .error _ => TokenSource.taken name state

/-- Makes a name known as a constant with the given value. -/
def registerConstant (name : Located String) (value : IntExpr) : Rule σ ε Unit :=
  fun state =>
    match (TokenSource.symbols state).defineConstant name.value value.text with
    | .ok symbols => .ok ((), TokenSource.know symbols state)
    | .error _ => TokenSource.taken name state

/-- A constant, after its keyword. -/
def constDecl : Rule σ ε ConstDecl := do
  let name ← newName
  expect (.mark .assign)
  let value ← intExpr
  registerConstant name value
  return ⟨name.value, value⟩

/-- A member of an enumeration. -/
def enumMember : Rule σ ε EnumMember := do
  let name ← newName
  expect (.mark .assign)
  return ⟨name.value, ← intExpr⟩

/-- Goes on after a comma, and otherwise reads the end of an enumeration. -/
def moreMembers : Rule σ ε Bool := do
  if ← eat (.mark .comma) then return true
  else
    expect (.mark .closeCurly)
    return false

/-- An enumeration, after its keyword. -/
def enumDecl : Rule σ ε EnumDecl := do
  let name ← newName
  expect (.mark .openCurly)
  let members ← oneOrMore enumMember moreMembers
  register name
  return ⟨name.value, members⟩

/-- A field of a structure with its semicolon. -/
def structField : Rule σ ε Field := do
  let entry ← field
  expect (.mark .semicolon)
  return entry

/-- A structure, after its keyword. -/
def structDecl : Rule σ ε StructDecl := do
  let name ← newName
  expect (.mark .openCurly)
  let fields ← oneOrMore structField (untilToken (.mark .closeCurly))
  register name
  return ⟨name.value, fields⟩

/-- A type definition, after its keyword. -/
def typedefDecl : Rule σ ε Field := do
  let type ← typeRef
  if ← eat (.mark .times) then
    let name ← newName
    register name
    return ⟨name.value, type, .pointer⟩
  else
    let name ← newName
    let form ← suffix
    if form = .plain then ahead (.mark .semicolon)
    register name
    return ⟨name.value, type, form⟩

/-- The label of a case. -/
def label : Rule σ ε Label := do
  match (← next).value with
  | .keyword .caseLabel => return .value (← intExpr)
  | .keyword .defaultLabel => return .otherwise
  | found => fail (.expected .unionCase found)

/-- The tokens before which a case may be without an arm. -/
def endsCase (token : Token) : Bool :=
  token = .mark .semicolon || token = .mark .closeCurly || token = .keyword .caseLabel ||
    token = .keyword .defaultLabel

/-- The tokens before which an arm may be a type alone. -/
def endsArm (token : Token) : Bool :=
  token = .mark .semicolon || token = .mark .closeCurly

/-- The arm of a case: nothing, a type, or a field. -/
def arm (label : Label) : Rule σ ε Case := do
  if (← peek).all endsCase then return ⟨label, none, none, .plain⟩
  else
    let type ← typeRef
    if (← peek).any endsArm then return ⟨label, some type, none, .plain⟩
    else
      let entry ← fieldAfter type
      return ⟨label, some entry.type, some entry.name, entry.form⟩

/-- A case with the semicolon that may follow it. -/
def unionCase : Rule σ ε Case := do
  let label ← label
  expect (.mark .colon)
  let case ← arm label
  let _ ← eat (.mark .semicolon)
  return case

/-- A union, after its keyword. -/
def unionDecl : Rule σ ε UnionDecl := do
  let name ← newName
  expect (.keyword .switch)
  expect (.mark .openParen)
  let type ← typeRef
  let discriminant ← localName
  expect (.mark .closeParen)
  expect (.mark .openCurly)
  let cases ← oneOrMore unionCase (untilToken (.mark .closeCurly))
  register name
  return ⟨name.value, ⟨type, discriminant⟩, cases⟩

/-- A procedure with its semicolon. -/
def procDecl : Rule σ ε ProcDecl := do
  let res ← typeRef
  let name ← localName
  expect (.mark .openParen)
  let arg ← typeRef
  expect (.mark .closeParen)
  expect (.mark .assign)
  let id ← intExpr
  expect (.mark .semicolon)
  return ⟨id, name, arg, res⟩

/-- A version with its semicolon. -/
def versionDecl : Rule σ ε VersionDecl := do
  expect (.keyword .version)
  let name ← localName
  expect (.mark .openCurly)
  let procs ← oneOrMore procDecl (untilToken (.mark .closeCurly))
  expect (.mark .assign)
  let number ← intExpr
  expect (.mark .semicolon)
  return ⟨name, number, procs⟩

/-- A program, after its keyword. -/
def programDecl : Rule σ ε ProgramDecl := do
  let name ← localName
  expect (.mark .openCurly)
  let versions ← oneOrMore versionDecl (untilToken (.mark .closeCurly))
  expect (.mark .assign)
  return ⟨name, ← intExpr, versions⟩

/-- A declaration. -/
def decl : Rule σ ε Decl := do
  match (← next).value with
  | .keyword .const => return .const (← constDecl)
  | .keyword .enum => return .enum (← enumDecl)
  | .keyword .struct => return .struct (← structDecl)
  | .keyword .union => return .union (← unionDecl)
  | .keyword .typeDef => return .typeDef (← typedefDecl)
  | .keyword .program => return .program (← programDecl)
  | found => fail (.expected .declaration found)

/-- A declaration with its semicolon. -/
def statement : Rule σ ε Decl := do
  let decl ← decl
  expect (.mark .semicolon)
  return decl

/-- Goes on as long as there are tokens. -/
def untilEnd : Rule σ ε Bool := do
  return (← peek).isSome

/-- A whole interface definition. -/
def file : Rule σ ε (List Decl) :=
  oneOrMore statement untilEnd

end Rules

end Parser

/-- The declarations of a source, and the names known after them. -/
structure Parsed where
  decls : List Decl
  symbols : Symbols

/-- Why a source has no declarations: lexical errors, which come first, or
the first syntax error. -/
inductive ParseFailure where
  | lexical (errors : List (Located LexError))
  | syntactic (error : Located SyntaxError)
  deriving DecidableEq, Repr

namespace Decl

/-- The declarations that a sequence of lexemes spells, given the names
already known. -/
def ofLexemes (symbols : Symbols) (lexemes : List (Located Lexeme)) :
    Except (Located SyntaxError) Parsed :=
  (Parser.file (Parser.Cursor.mk lexemes symbols (.single .first))).map fun (decls, cursor) =>
    ⟨decls, cursor.symbols⟩

end Decl
end Xdr
