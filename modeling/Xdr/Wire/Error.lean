/-!
# Faults of coded values

Why a value could not be written to the wire, read from it, or read from its
structural form.
-/

namespace Xdr

/-- Why a value could not be coded. -/
inductive WireError where
  /-- The input ended, and this many more bytes were needed. -/
  | endOfInput (needed : Nat)
  /-- A truth value other than 0 and 1. -/
  | badBool (word : UInt32)
  /-- A number that no member of the enumeration has. -/
  | badMember (enumeration : String) (number : Int)
  /-- A name that no member of the enumeration has. -/
  | badMemberName (enumeration member : String)
  /-- A fixed sequence with another number of items. -/
  | wrongLength (required : UInt32) (found : Nat)
  /-- A sequence longer than its limit. -/
  | tooLong (limit : UInt32) (found : Nat)
  /-- The discriminant selects an arm that the union does not hold. -/
  | missingArm (union arm : String)
  /-- The bytes of a text are not UTF-8. -/
  | badText
  /-- A structural value of another shape than the one required. -/
  | mismatch (required found : String)
  /-- A text that is no structural value. -/
  | badJson
  /-- A name that the schema does not define. -/
  | undefinedType (type : String)
  /-- A value that does not have the type it is coded as. -/
  | illTyped
  deriving DecidableEq, Repr

namespace WireError

/-- The wording of a fault. -/
def message : WireError → String
  | .endOfInput needed => s!"Unexpected end of input, {needed} more bytes were expected"
  | .badBool word => s!"Invalid boolean value {word} in input"
  | .badMember enumeration number =>
    s!"Value {number} does not name a member of `{enumeration}`"
  | .badMemberName enumeration member =>
    s!"`{member}` is not a member of `{enumeration}`"
  | .wrongLength required found => s!"Expected exactly {required} elements, found {found}"
  | .tooLong limit found => s!"Length {found} exceeds the bound of {limit}"
  | .missingArm union arm =>
    s!"Arm `{arm}` of union `{union}` is selected by the discriminant but absent"
  | .badText => "Invalid UTF-8 in string"
  | .mismatch required found => s!"Expected {required}, found `{found}`"
  | .badJson => "JSON error"
  | .undefinedType type => s!"Type `{type}` is not defined"
  | .illTyped => "The value does not have its declared type"

end WireError
end Xdr
