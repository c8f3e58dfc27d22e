import Xdr.Interface.Calculator
import Xdr.Interface.Directory
import Xdr.Schema.Decode
import Xdr.Schema.Encode

/-!
# The types of the sample interfaces
-/

namespace Xdr

/-- A type of the calculator or the directory interface. -/
inductive SampleType where
  | point
  | color
  | msg
  | opt
  | chain
  | node
  | digest
  | label
  | score
  | shapeKind
  | circle
  | square
  | shape
  | entry
  | list
  deriving DecidableEq, Repr

namespace SampleType

/-- The named types of the interface that a type belongs to. -/
def schema : SampleType → Schema
  | .point | .color | .msg | .opt | .chain | .node => Calculator.schema
  | .digest | .label | .score | .shapeKind | .circle | .square | .shape | .entry | .list =>
    Directory.schema

/-- The type in terms of its interface. -/
def type : SampleType → Ty
  | .point => .named "Point"
  | .color => .named "Color"
  | .msg => .named "Msg"
  | .opt => .named "Opt"
  | .chain => .named "chain"
  | .node => .named "node"
  | .digest => Directory.digest
  | .label => Directory.label
  | .score => Directory.score
  | .shapeKind => .named "shape_kind"
  | .circle => .named "circle"
  | .square => .named "square"
  | .shape => .named "shape"
  | .entry => .named "entry"
  | .list => Directory.list

/-- The bytes of a value. -/
def toBinary (sample : SampleType) (value : Value) : Except WireError (List UInt8) :=
  (sample.schema.encode sample.type value).result

/-- The value at the front of some bytes, and the bytes left. -/
def fromBinary (sample : SampleType) (bytes : List UInt8) :
    Except WireError (Value × List UInt8) :=
  match sample.schema.decode sample.type bytes with
  | (.ok value, rest) => .ok (value, rest)
  | (.error error, _) => .error error

end SampleType
end Xdr
