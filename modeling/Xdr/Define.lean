import Xdr.Numeral
import Xdr.Text.Blank
import Xdr.Text.Quoted

/-!
# Defines

Definitions given from outside a source, written `NAME` or `NAME=VALUE`.

## Design Notes

Blanks around the name and the value do not count. A name without a value
stands for one.
-/

namespace Xdr

/-- The value of an external definition, in its own spelling. -/
inductive DefineValue where
  | int (text : String)
  | text (text : String)
  deriving DecidableEq, Repr

/-- A definition given from outside a source. -/
structure Define where
  name : String
  value : DefineValue
  deriving DecidableEq, Repr

/-- Why a text is not a definition. -/
inductive DefineError where
  | emptyName
  | badName (name : String)
  deriving DecidableEq, Repr

namespace DefineError

/-- The message of a definition error. -/
def message : DefineError → String
  | .emptyName => "Define has an empty name"
  | .badName name => "Bad define name " ++ Text.quoteString name

end DefineError

namespace DefineValue

/-- The spelling of a value. -/
def spelling : DefineValue → String
  | .int digits => digits
  | .text characters => characters

/-- The value with the given spelling: an integer if it looks like one. -/
def ofSpelling (characters : List Char) : DefineValue :=
  if Numeral.isNumeral characters then .int (String.ofList characters)
  else .text (String.ofList characters)

end DefineValue

namespace Define

/-- A name of the language: letters, digits and underscores, and no digit at
the front. -/
def isName : List Char → Bool
  | [] => false
  | c :: cs => (c.isAlpha || c == '_') && cs.all fun c => c.isAlphanum || c == '_'

/-- Reads a definition. -/
def parse (definition : String) : Except DefineError Define :=
  let characters := definition.toList
  let name := Text.trim (characters.takeWhile (· != '='))
  let value :=
    match characters.dropWhile (· != '=') with
    | [] => ['1']
    | _ :: value => Text.trim value
  if name.isEmpty then .error .emptyName
  else if isName name then .ok ⟨String.ofList name, .ofSpelling value⟩
  else .error (.badName (String.ofList name))

/-- Reads definitions in order, up to the first bad one. -/
def parseAll (definitions : List String) : Except DefineError (List Define) :=
  definitions.mapM parse

end Define
end Xdr
