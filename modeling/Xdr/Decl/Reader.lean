import Xdr.Decl.Parser
import Xdr.Token.Scanner

/-!
# The reader

Parses a source while it is scanned.

## Design Notes

A token is pulled from the scanner when the parser asks for it and not
before, since the scanner classifies names by the table that the parser
fills. A token that was looked at is kept until it is read, with the class
that it had then.

Lexical errors are set aside as they come. One of them anywhere makes every
syntax error doubtful, so when the parser fails the rest is scanned for more
of them, and lexical errors are reported alone.
-/

namespace Xdr

/-- A scanner that tokens are pulled from, the token that was looked at but
not read, the place of the last token read, and the lexical errors met so
far. -/
structure Reader where
  scanner : Scanner
  peeked : Option (Located Token)
  last : Span
  errors : List (Located LexError)

namespace Reader

/-- The reader at the beginning of a source. -/
def ofSource (source : Source) (symbols : Symbols) : Reader :=
  let scanner := Scanner.ofSource source symbols
  ⟨scanner, none, .single scanner.start, []⟩

/-- The next token among at most `limit` replies of the scanner; the errors
before it are set aside. -/
def pullWithin : Nat → Reader → Option (Located Token) × Reader
  | 0, reader => (none, reader)
  | limit + 1, reader =>
    match reader.scanner.next with
    | (none, scanner) => (none, { reader with scanner := scanner })
    | (some (.ok token), scanner) => (some token, { reader with scanner := scanner })
    | (some (.error error), scanner) =>
      pullWithin limit { reader with scanner := scanner, errors := reader.errors ++ [error] }

/-- Gets the next token from the scanner. Each reply takes an item, so there
are at most as many as items. -/
def pull (reader : Reader) : Option (Located Token) × Reader :=
  pullWithin (reader.scanner.rest.length + 1) reader

/-- The next token, which is kept. -/
def peek (reader : Reader) : Option Token × Reader :=
  match reader.peeked with
  | some token => (some token.value, reader)
  | none =>
    let (token, after) := reader.pull
    (token.map Located.value, { after with peeked := token })

/-- Takes the token that was kept, or else the next one. -/
def take (reader : Reader) : Option (Located Token) × Reader :=
  match reader.peeked with
  | some token => (some token, { reader with peeked := none })
  | none => reader.pull

/-- Pulls at most `limit` tokens. -/
def drainWithin : Nat → Reader → Reader
  | 0, reader => reader
  | limit + 1, reader =>
    match reader.pull with
    | (none, after) => after
    | (some _, after) => drainWithin limit after

/-- Pulls all tokens to the end, for the errors among them. -/
def drain (reader : Reader) : Reader :=
  drainWithin (reader.scanner.rest.length + 1) reader

/-- A syntax error, and the reader where the parser stopped. -/
abbrev Stop := Located SyntaxError × Reader

/-- Reads the next token. -/
def next (reader : Reader) : Except Stop (Located Token × Reader) :=
  match reader.take with
  | (none, after) => .error (⟨after.last, .endOfInput⟩, after)
  | (some token, after) => .ok (token, { after with last := token.span })

/-- The reader with other names known. -/
def know (symbols : Symbols) (reader : Reader) : Reader :=
  { reader with scanner := { reader.scanner with symbols := symbols } }

instance : Parser.TokenSource Reader Stop where
  symbols reader := reader.scanner.symbols
  know := know
  limit reader := reader.scanner.rest.length + 1
  peek reader := .ok reader.peek
  next := next
  -- What was looked at is kept, so it stays as it was judged.
  ahead _ reader := .ok ((), reader)
  failure error reader := (⟨reader.last, error⟩, reader)
  known name reader := (Parser.redeclared name, reader)
  taken name reader := .error (Parser.redeclared name, reader)

end Reader

namespace Decl

/-- The outcome of a source: its lexical errors, or what the parser found if
there are none. -/
def report (errors : List (Located LexError))
    (outcome : Except (Located SyntaxError) Parsed) : Except ParseFailure Parsed :=
  match errors with
  | [] => outcome.mapError .syntactic
  | errors => .error (.lexical errors)

/-- The declarations of a source, given the names already known. -/
def parse (symbols : Symbols) (source : Source) : Except ParseFailure Parsed :=
  match Parser.file (Reader.ofSource source symbols) with
  | .ok (decls, reader) => report reader.errors (.ok ⟨decls, reader.scanner.symbols⟩)
  | .error (error, reader) => report reader.drain.errors (.error error)

end Decl
end Xdr
