/-!
# Emission errors

Why a bundle has no emitted form. A source may be well-formed and still
refer to what it does not declare.
-/

namespace Xdr

/-- Why a bundle has no emitted form. -/
inductive EmitError where
  /-- A type that no declaration bears. -/
  | unknownType (name context : String)
  /-- A value that no constant or enumeration member bears. -/
  | unknownValue (name context : String)
  /-- Two members or labels with the same number, or two default cases. -/
  | duplicateLabel (within label : String)
  /-- An arm given again with another type, or with the name of the
  discriminant. -/
  | conflictingArm (union arm : String)
  /-- A discriminant that is no integer. -/
  | invalidDiscriminant (union type : String)
  /-- A field without a value. -/
  | voidField (context : String)
  /-- A length or number below zero. -/
  | negativeBound (context : String) (length : Int)
  /-- A number that its place cannot hold. -/
  | outOfRange (context : String) (value : Int) (type : String)
  /-- A fixed array whose length is not given. -/
  | missingLength (context : String)
  /-- The output could not be written. -/
  | unwritable
  deriving DecidableEq, Repr

namespace EmitError

/-- The message of an emission error. -/
def message : EmitError → String
  | .unknownType name context => s!"Unknown type `{name}` in `{context}`"
  | .unknownValue name context => s!"Unknown value `{name}` in `{context}`"
  | .duplicateLabel within label => s!"Value `{label}` appears more than once in `{within}`"
  | .conflictingArm union arm =>
    s!"Arm `{arm}` of union `{union}` is declared with conflicting types"
  | .invalidDiscriminant union type => s!"Type `{type}` cannot discriminate union `{union}`"
  | .voidField context => s!"`void` cannot be used as the type of `{context}`"
  | .negativeBound context length => s!"Length {length} of `{context}` is negative"
  | .outOfRange context value type =>
    s!"Value {value} of `{context}` does not fit in `{type}`"
  | .missingLength context => s!"Fixed array `{context}` has no length"
  | .unwritable => "I/O error"

end EmitError
end Xdr
