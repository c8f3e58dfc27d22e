import Xdr.Table

/-!
# JSON values

The structural form of data: objects keep the order in which their keys were
given.
-/

namespace Xdr

/-- A number: an integer from `-2 ^ 63` to `2 ^ 64 - 1`, or any other as a
64-bit binary number. -/
inductive Json.Number where
  | int (value : Int)
  | float (bits : UInt64)
  deriving DecidableEq, Repr

/-- A value. -/
inductive Json where
  | null
  | bool (value : Bool)
  | number (value : Json.Number)
  | string (value : String)
  | array (items : List Json)
  | object (members : List (String × Json))
  deriving Repr

namespace Json

/-- An integer. -/
def int (value : Int) : Json :=
  .number (.int value)

/-- A natural number. -/
def nat (value : Nat) : Json :=
  .int value

mutual

/-- How deep arrays and objects are nested in a value. -/
def depth : Json → Nat
  | .array items => depthItems items + 1
  | .object members => depthMembers members + 1
  | _ => 0

/-- The greatest depth among some values. -/
def depthItems : List Json → Nat
  | [] => 0
  | item :: items => max (depth item) (depthItems items)

/-- The greatest depth among the values of some members. -/
def depthMembers : List (String × Json) → Nat
  | [] => 0
  | (_, value) :: members => max (depth value) (depthMembers members)

end

end Json
end Xdr
