import Xdr.Numeral
import Xdr.Source.Basic
import Xdr.Text.Blank
import Xdr.Text.Quoted
import Xdr.Token.Basic
import Xdr.Token.Reserved

/-!
# The lexer

Reads the items of a source as lexemes. Blanks, comments and directive lines
are gaps between them; a bad character is reported and skipped, and reading
goes on after it.

## Design Notes

A word or numeral is the longest run of its characters. `#` and `%`, where a
lexeme could begin, open a directive that ends with its line.

`Lexer.start` is where the last lexeme or gap examined begins. An error is
located there: at the character for a bad one, at the opening for a comment
that does not end, and for an unreadable line at whatever came last before
it. After an unreadable line nothing more is read.
-/

namespace Xdr

/-- What can be wrong with the characters of a source. -/
inductive LexError where
  /-- A line could not be read. -/
  | unreadable
  /-- A character that begins no lexeme. -/
  | badChar (c : Char)
  /-- A block comment without an end. -/
  | openComment
  /-- A hexadecimal mark without digits. -/
  | badLiteral (text : String)
  /-- A literal that does not fit into 64 bits. -/
  | overflow (text : String)
  deriving DecidableEq, Repr

namespace LexError

/-- The message of a lexical error. -/
def message : LexError → String
  | .unreadable => "I/O error"
  | .badChar c => "Bad character " ++ Text.quoteChar c ++ " in input stream"
  | .openComment => "Unterminated block comment"
  | .badLiteral text => "Malformed integer literal " ++ Token.ticked text
  | .overflow text =>
    "Integer literal " ++ Token.ticked text ++ " overflows, valid range is [" ++
      toString Numeral.least ++ ", " ++ toString Numeral.greatest ++ "]"

end LexError

/-- A place in the stream of items: where the last lexeme or gap examined
begins, where the next character stands, and what is left. -/
structure Lexer where
  start : Position
  here : Position
  rest : List Item
  deriving Repr

namespace Lexer

/-- A lexeme or an error, with its place. -/
abbrev Result := Except (Located LexError) (Located Lexeme)

/-- The lexer at the beginning of a source. -/
def ofSource (source : Source) : Lexer :=
  ⟨.first, .first, source.items⟩

/-- The characters that satisfy `p` from `here` on, the position after them,
and what is left. -/
def run (p : Char → Bool) (here : Position) : List Item → List Char × Position × List Item
  | .char c next :: rest =>
    if p c then
      let (more, stop, left) := run p next rest
      (c :: more, stop, left)
    else ([], here, .char c next :: rest)
  | items => ([], here, items)

/-- A character that begins a word. -/
def beginsWord (c : Char) : Bool :=
  c.isAlpha || c == '_'

/-- A character that continues a word. -/
def continuesWord (c : Char) : Bool :=
  c.isAlphanum || c == '_'

/-- The lexeme that a word spells. -/
def wordLexeme (word : String) : Lexeme :=
  match Keyword.ofWord? word with
  | some keyword => .keyword keyword
  | none => .word (escapeWord word)

/-- The rest of a numeral after its first digit. -/
def digits (first : Char) (here : Position) (items : List Item) :
    List Char × Position × List Item :=
  match items with
  | .char mark next :: rest =>
    if first == '0' && (mark == 'x' || mark == 'X') then
      let (more, stop, left) := run (Numeral.isDigitIn 16) next rest
      (mark :: more, stop, left)
    else run (Numeral.isDigitIn 10) here items
  | _ => ([], here, items)

/-- The result for the numeral `text`, and the lexer after it. -/
def numeral (start : Position) (text : List Char) (stop : Position) (rest : List Item) :
    Option Result × Lexer :=
  let literal := String.ofList text
  let result : Result :=
    match Numeral.check text with
    | none => .ok ⟨⟨start, stop⟩, .literal literal⟩
    | some .malformed => .error ⟨.single start, .badLiteral literal⟩
    | some .overflow => .error ⟨.single start, .overflow literal⟩
  (some result, ⟨start, stop, rest⟩)

/-- The lexeme that begins with the character `c` at `here`, where `next`
follows it, or the error that it is none. -/
def lexeme (c : Char) (here next : Position) (rest : List Item) : Option Result × Lexer :=
  if beginsWord c then
    let (more, stop, left) := run continuesWord next rest
    (some (.ok ⟨⟨here, stop⟩, wordLexeme (String.ofList (c :: more))⟩), ⟨here, stop, left⟩)
  else if c.isDigit then
    let (more, stop, left) := digits c next rest
    numeral here (c :: more) stop left
  else if c == '-' || c == '+' then
    match rest with
    | .char digit after :: tail =>
      if digit.isDigit then
        let (more, stop, left) := digits digit after tail
        numeral here (c :: digit :: more) stop left
      else (some (.ok ⟨⟨here, next⟩, .mark (if c == '-' then .minus else .plus)⟩),
        ⟨here, next, rest⟩)
    | _ =>
      (some (.ok ⟨⟨here, next⟩, .mark (if c == '-' then .minus else .plus)⟩),
        ⟨here, next, rest⟩)
  else
    match Mark.ofChar? c with
    | some mark => (some (.ok ⟨⟨here, next⟩, .mark mark⟩), ⟨here, next, rest⟩)
    | none => (some (.error ⟨.single here, .badChar c⟩), ⟨here, next, rest⟩)

/-- What stands between two lexemes. -/
inductive Gap where
  /-- Nothing, or blanks. -/
  | blank
  /-- A slash that has to open a comment. -/
  | slash
  /-- The rest of a line. -/
  | line
  /-- A block comment. -/
  | block
  /-- A block comment, right after a star. -/
  | star
  deriving DecidableEq, Repr

/-- Reads on through a gap to the next lexeme, error or end. The last lexeme
or gap examined began at `start`, and the next character stands at `here`. -/
def scan (start here : Position) : Gap → List Item → Option Result × Lexer
  | .blank, [] => (none, ⟨here, here, []⟩)
  | .line, [] => (none, ⟨here, here, []⟩)
  | .slash, [] => (some (.error ⟨.single start, .badChar '/'⟩), ⟨start, here, []⟩)
  | .block, [] => (some (.error ⟨.single start, .openComment⟩), ⟨start, here, []⟩)
  | .star, [] => (some (.error ⟨.single start, .openComment⟩), ⟨start, here, []⟩)
  | _, .unreadable :: _ => (some (.error ⟨.single start, .unreadable⟩), ⟨start, start, []⟩)
  | .blank, .char c next :: rest =>
    if Text.isBlank c then scan here next .blank rest
    else if c == '/' then scan here next .slash rest
    else if c == '#' || c == '%' then scan here next .line rest
    else lexeme c here next rest
  | .slash, .char c next :: rest =>
    if c == '/' then scan start next .line rest
    else if c == '*' then scan start next .block rest
    else (some (.error ⟨.single start, .badChar '/'⟩), ⟨start, here, .char c next :: rest⟩)
  | .line, .char c next :: rest => scan start next (if c == '\n' then .blank else .line) rest
  | .block, .char c next :: rest => scan start next (if c == '*' then .star else .block) rest
  | .star, .char c next :: rest =>
    scan start next (if c == '/' then .blank else if c == '*' then .star else .block) rest

/-- The next lexeme or error, or none at the end, and the lexer after it. -/
def next (lexer : Lexer) : Option Result × Lexer :=
  scan lexer.start lexer.here .blank lexer.rest

/-- At most `limit` results, and the lexer after them. -/
def collect : Nat → Lexer → List Result × Lexer
  | 0, lexer => ([], lexer)
  | limit + 1, lexer =>
    match lexer.next with
    | (none, after) => ([], after)
    | (some result, after) =>
      let (results, last) := collect limit after
      (result :: results, last)

/-- All results to the end, and the lexer there. Each result takes an item,
so there are at most as many as there are items. -/
def drain (lexer : Lexer) : List Result × Lexer :=
  collect (lexer.rest.length + 1) lexer

/-- All lexemes and errors to the end. -/
def results (lexer : Lexer) : List Result :=
  lexer.drain.1

/-- The lexemes among some results. -/
def lexemes (results : List Result) : List (Located Lexeme) :=
  results.filterMap fun
    | .ok lexeme => some lexeme
    | .error _ => none

/-- The errors among some results. -/
def errors (results : List Result) : List (Located LexError) :=
  results.filterMap fun
    | .ok _ => none
    | .error error => some error

end Lexer
end Xdr
