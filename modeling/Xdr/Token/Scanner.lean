import Xdr.Symbols
import Xdr.Token.Lexer

/-!
# The scanner

Reads the items of a source as tokens, one at a time, in the light of a
table that it carries along and that may change between two tokens.

## Design Notes

A character is looked at before it is taken, and the table is at hand in
every state. The one that ends a token stays for the next call; the end of
the items ends a token too. After an unreadable line the scanner halts.
-/

namespace Xdr

/-- A token or an error, with its place. -/
abbrev Lexer.Reply := Except (Located LexError) (Located Token)

namespace Scanner

/-- What was read of the token or gap under way. -/
inductive State where
  /-- Nothing. -/
  | start
  /-- A mark that stands alone. -/
  | complete (mark : Mark)
  /-- A slash that has to open a comment. -/
  | slash
  /-- A part of a line that is skipped. -/
  | line
  /-- A part of a block comment. -/
  | block
  /-- A part of a block comment, up to a star. -/
  | star
  /-- A sign. -/
  | sign (c : Char)
  /-- A numeral, as far as it goes. -/
  | number (literal : List Char)
  /-- A word, as far as it goes. -/
  | word (letters : List Char)
  /-- A line that could not be read. -/
  | halted
  deriving DecidableEq, Repr

/-- What to do in view of the next character. -/
inductive Move where
  /-- Take it, and go on in the given state. -/
  | take (state : State)
  /-- Take it, and report it. -/
  | reject (error : LexError)
  /-- Leave it: what was read is complete. -/
  | finish (outcome : Except LexError Token)
  /-- There is nothing to read. -/
  | stop
  deriving Repr

/-- The mark that a sign is, where no numeral follows it. -/
def signMark (c : Char) : Mark :=
  if c == '-' then .minus else .plus

/-- What a complete numeral is. -/
def literal (text : List Char) : Except LexError Token :=
  match Numeral.check text with
  | none => .ok (.literal (String.ofList text))
  | some .malformed => .error (.badLiteral (String.ofList text))
  | some .overflow => .error (.overflow (String.ofList text))

namespace State

/-- What to do with a character where nothing was read yet. -/
def first (c : Char) : Move :=
  if Text.isBlank c then .take .start
  else if c == '/' then .take .slash
  else if c == '#' || c == '%' then .take .line
  else if Lexer.beginsWord c then .take (.word [c])
  else if c.isDigit then .take (.number [c])
  else if c == '-' || c == '+' then .take (.sign c)
  else
    match Mark.ofChar? c with
    | some mark => .take (.complete mark)
    | none => .reject (.badChar c)

/-- What to do in view of the next character, or of the end, given the names
known. -/
def move (symbols : Symbols) : State → Option Char → Move
  | .start, some c => first c
  | .start, none => .stop
  | .complete mark, _ => .finish (.ok (.mark mark))
  | .slash, next =>
    if next = some '/' then .take .line
    else if next = some '*' then .take .block
    else .finish (.error (.badChar '/'))
  | .line, some c => .take (if c == '\n' then .start else .line)
  | .line, none => .stop
  | .block, some c => .take (if c == '*' then .star else .block)
  | .block, none => .finish (.error .openComment)
  | .star, some c => .take (if c == '/' then .start else if c == '*' then .star else .block)
  | .star, none => .finish (.error .openComment)
  | .sign c, next =>
    match next.filter Char.isDigit with
    | some digit => .take (.number [c, digit])
    | none => .finish (.ok (.mark (signMark c)))
  | .number text, next =>
    match next.filter (Numeral.continues text) with
    | some c => .take (.number (text ++ [c]))
    | none => .finish (literal text)
  | .word letters, next =>
    match next.filter Lexer.continuesWord with
    | some c => .take (.word (letters ++ [c]))
    | none => .finish (.ok (symbols.classify (Lexer.wordLexeme (String.ofList letters))))
  | .halted, _ => .stop

/-- Where the token under way begins, if the next character stands at
`here`. -/
def origin (start here : Position) : State → Position
  | .start => here
  | _ => start

end State

end Scanner

/-- A place in the stream of items: what was read of the token under way,
where it or the last one begins, where the next character stands and what is
left; and the names known. -/
structure Scanner where
  state : Scanner.State
  start : Position
  here : Position
  rest : List Item
  symbols : Symbols
  deriving Repr

namespace Scanner

/-- The scanner at the beginning of a source. -/
def ofSource (source : Source) (symbols : Symbols) : Scanner :=
  ⟨.start, .first, .first, source.items, symbols⟩

/-- What is answered where a token between two positions is complete. -/
def reply (start stop : Position) : Except LexError Token → Lexer.Reply
  | .ok token => .ok ⟨⟨start, stop⟩, token⟩
  | .error error => .error ⟨.single start, error⟩

/-- Reads on from a state to the next token, error or end. -/
def scan (symbols : Symbols) (start here : Position) :
    State → List Item → Option Lexer.Reply × Scanner
  | _, .unreadable :: rest =>
    (some (.error ⟨.single start, .unreadable⟩), ⟨.halted, start, here, rest, symbols⟩)
  | state, [] =>
    let start := state.origin start here
    match state.move symbols none with
    | .finish outcome => (some (reply start here outcome), ⟨.start, start, here, [], symbols⟩)
    | .reject error =>
      (some (reply start here (.error error)), ⟨.start, start, here, [], symbols⟩)
    | .take _ | .stop => (none, ⟨.start, here, here, [], symbols⟩)
  | state, .char c next :: rest =>
    let start := state.origin start here
    match state.move symbols (some c) with
    | .take state => scan symbols start next state rest
    | .reject error =>
      (some (reply start next (.error error)), ⟨.start, start, next, rest, symbols⟩)
    | .finish outcome =>
      (some (reply start here outcome), ⟨.start, start, here, .char c next :: rest, symbols⟩)
    | .stop => (none, ⟨.start, start, here, .char c next :: rest, symbols⟩)

/-- The next token or error, or none at the end, and the scanner after it. -/
def next (scanner : Scanner) : Option Lexer.Reply × Scanner :=
  if scanner.state = .halted then (none, scanner)
  else scan scanner.symbols scanner.start scanner.here scanner.state scanner.rest

/-- At most `limit` replies, and the scanner after them. -/
def collect : Nat → Scanner → List Lexer.Reply × Scanner
  | 0, scanner => ([], scanner)
  | limit + 1, scanner =>
    match scanner.next with
    | (none, after) => ([], after)
    | (some reply, after) =>
      let (replies, last) := collect limit after
      (reply :: replies, last)

/-- All replies to the end, and the scanner there. Each takes an item, so
there are at most as many as there are items. -/
def drain (scanner : Scanner) : List Lexer.Reply × Scanner :=
  collect (scanner.rest.length + 1) scanner

/-- The errors to the end. -/
def faults (scanner : Scanner) : List (Located LexError) :=
  scanner.drain.1.filterMap fun
    | .ok _ => none
    | .error error => some error

/-- The tokens of at most `limit` replies. After the first error no tokens
are sought, only errors. -/
def exhaustUpTo : Nat → Scanner → Except (List (Located LexError)) (List (Located Token))
  | 0, _ => .ok []
  | limit + 1, scanner =>
    match scanner.next with
    | (none, _) => .ok []
    | (some (.ok token), after) => (exhaustUpTo limit after).map (token :: ·)
    | (some (.error error), after) => .error (error :: after.faults)

/-- All tokens to the end, or all errors if there are any. -/
def exhaust (scanner : Scanner) : Except (List (Located LexError)) (List (Located Token)) :=
  exhaustUpTo (scanner.rest.length + 1) scanner

end Scanner
end Xdr
