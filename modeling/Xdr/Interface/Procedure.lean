/-!
# Procedures

What a transport needs to know to dispatch a call.

## Design Notes

A full name has the form `PROGRAM.VERSION.method`. Its last dot divides the
service from the method.
-/

namespace Xdr

/-- A remote procedure. -/
structure Procedure where
  program : UInt32
  version : UInt32
  id : UInt32
  name : String
  deriving DecidableEq, Repr

namespace Procedure

/-- The characters before the last dot, if there is one, and those after it.
-/
def splitName : List Char → Option (List Char) × List Char
  | [] => (none, [])
  | c :: cs =>
    match splitName cs with
    | (some service, method) => (some (c :: service), method)
    | (none, method) => if c = '.' then (some [], method) else (none, c :: method)

/-- The part of the name before its last dot, which names the service. -/
def service (procedure : Procedure) : String :=
  String.ofList ((splitName procedure.name.toList).1.getD [])

/-- The part of the name after its last dot, which names the method in its
service. -/
def method (procedure : Procedure) : String :=
  String.ofList (splitName procedure.name.toList).2

end Procedure
end Xdr
