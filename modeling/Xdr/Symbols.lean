import Xdr.Define
import Xdr.Table
import Xdr.Token.Basic
import Xdr.Token.Reserved

/-!
# Symbols

What the names of a source stand for at a point of it. Declarations add to
it as they end, and the next names are read in its light.

## Design Notes

Keywords are recognised before any name is looked up, so no declaration can
hide them.
-/

namespace Xdr

/-- What a declared name stands for. -/
inductive SymbolClass where
  | type
  | constant
  deriving DecidableEq, Repr

/-- The classes of the known names, and the values of constants as they were
spelled. -/
structure Symbols where
  classes : Table SymbolClass
  constants : Table String
  deriving Repr

namespace Symbols

/-- The table that knows only the two truth values. -/
def initial : Symbols where
  classes := [("TRUE", .constant), ("FALSE", .constant)]
  constants := [("TRUE", "1"), ("FALSE", "0")]

/-- The table after an external definition. An integer makes its name a
constant; any other text only has its value recorded. -/
def addDefine (symbols : Symbols) (define : Define) : Symbols :=
  let name := escapeWord define.name
  { classes :=
      match define.value with
      | .int _ => symbols.classes.insert name .constant
      | .text _ => symbols.classes
    constants := symbols.constants.insert name define.value.spelling }

/-- The initial table after some external definitions. -/
def ofDefines (defines : List Define) : Symbols :=
  defines.foldl addDefine initial

/-- The class of a name, if it is known. -/
def classOf? (symbols : Symbols) (name : String) : Option SymbolClass :=
  symbols.classes.find? name

/-- The table after the declaration of `name`, or the class that the name
already has. -/
def declare (symbols : Symbols) (name : String) (cls : SymbolClass) :
    Except SymbolClass Symbols :=
  match symbols.classOf? name with
  | some previous => .error previous
  | none => .ok { symbols with classes := symbols.classes.insert name cls }

/-- The table after the declaration of a constant with its value, or the
class that the name already has. -/
def defineConstant (symbols : Symbols) (name value : String) : Except SymbolClass Symbols :=
  (symbols.declare name .constant).map fun declared =>
    { declared with constants := declared.constants.insert name value }

/-- The token that a lexeme is, given what its name stands for. -/
def classify (symbols : Symbols) : Lexeme → Token
  | .word name =>
    match symbols.classOf? name with
    | some .type => .typeName name
    | some .constant => .constant name
    | none => .identifier name
  | .literal text => .literal text
  | .keyword keyword => .keyword keyword
  | .mark mark => .mark mark

end Symbols
end Xdr
