import Xdr.Token.Keyword

/-!
# Tokens

What a source consists of. The lexer yields lexemes, in which a word is just
a name; a token also says what the name stands for at that point.
-/

namespace Xdr

/-- A punctuation character. -/
inductive Mark where
  | assign
  | less
  | greater
  | minus
  | plus
  | times
  | semicolon
  | colon
  | comma
  | openParen
  | closeParen
  | openSquare
  | closeSquare
  | openCurly
  | closeCurly
  deriving DecidableEq, Repr

namespace Mark

/-- The character of a mark. -/
def char : Mark → Char
  | .assign => '='
  | .less => '<'
  | .greater => '>'
  | .minus => '-'
  | .plus => '+'
  | .times => '*'
  | .semicolon => ';'
  | .colon => ':'
  | .comma => ','
  | .openParen => '('
  | .closeParen => ')'
  | .openSquare => '['
  | .closeSquare => ']'
  | .openCurly => '\x7b'
  | .closeCurly => '\x7d'

/-- The marks that stand alone, whatever follows them. -/
def solitary : List Mark :=
  [.assign, .less, .greater, .times, .semicolon, .colon, .comma, .openParen, .closeParen,
    .openSquare, .closeSquare, .openCurly, .closeCurly]

/-- The solitary mark with the given character. -/
def ofChar? (c : Char) : Option Mark :=
  solitary.find? fun mark => mark.char == c

end Mark

/-- A unit of a source, independent of what its names stand for. Names are
in their emitted form. -/
inductive Lexeme where
  | word (name : String)
  | literal (text : String)
  | keyword (keyword : Keyword)
  | mark (mark : Mark)
  deriving DecidableEq, Repr

/-- A lexeme whose name, if it is one, is known as a type, a constant or
neither. -/
inductive Token where
  | identifier (name : String)
  | typeName (name : String)
  | constant (name : String)
  | literal (text : String)
  | keyword (keyword : Keyword)
  | mark (mark : Mark)
  deriving DecidableEq, Repr

namespace Token

/-- A text between back quotes. -/
def ticked (text : String) : String :=
  "`" ++ text ++ "`"

/-- A token as messages show it. -/
def text : Token → String
  | .identifier name => "identifier " ++ ticked name
  | .typeName name => "type name " ++ ticked name
  | .constant name => "constant " ++ ticked name
  | .literal digits => "literal " ++ ticked digits
  | .keyword k => "keyword " ++ ticked k.spelling
  | .mark m => ticked (String.singleton m.char)

end Token
end Xdr
