/-!
# Keywords

The words of the language that are never names. They are recognised in any
ASCII letter case.
-/

namespace Xdr

/-- A word of the language that is never a name. -/
inductive Keyword where
  | const
  | enum
  | struct
  | union
  | typeDef
  | switch
  | caseLabel
  | defaultLabel
  | program
  | version
  | opaqueData
  | unsigned
  | string
  | bool
  | hyper
  | long
  | int
  | float
  | double
  | netobj
  | void
  deriving DecidableEq, Repr

namespace Keyword

/-- Every keyword. -/
def all : List Keyword :=
  [.const, .enum, .struct, .union, .typeDef, .switch, .caseLabel, .defaultLabel, .program,
    .version, .opaqueData, .unsigned, .string, .bool, .hyper, .long, .int, .float, .double,
    .netobj, .void]

/-- The lower-case spelling of a keyword. -/
def spelling : Keyword → String
  | .const => "const"
  | .enum => "enum"
  | .struct => "struct"
  | .union => "union"
  | .typeDef => "typedef"
  | .switch => "switch"
  | .caseLabel => "case"
  | .defaultLabel => "default"
  | .program => "program"
  | .version => "version"
  | .opaqueData => "opaque"
  | .unsigned => "unsigned"
  | .string => "string"
  | .bool => "bool"
  | .hyper => "hyper"
  | .long => "long"
  | .int => "int"
  | .float => "float"
  | .double => "double"
  | .netobj => "netobj"
  | .void => "void"

/-- The keyword that a word spells, whatever the case of its ASCII letters. -/
def ofWord? (word : String) : Option Keyword :=
  all.find? fun keyword => keyword.spelling.toList == word.toList.map Char.toLower

end Keyword
end Xdr
