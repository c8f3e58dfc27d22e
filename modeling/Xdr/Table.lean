/-!
# Tables

Finite maps from names, in the order in which the names were first given.

## Design Notes

A name given again keeps its place and takes the last value.
-/

namespace Xdr

/-- Pairs of a name and a value. -/
abbrev Table (α : Type) := List (String × α)

namespace Table

variable {α : Type}

/-- The value of a name. -/
def find? (table : Table α) (name : String) : Option α :=
  List.lookup name table

/-- The table in which `name` has the value `value`. -/
def insert (name : String) (value : α) : Table α → Table α
  | [] => [(name, value)]
  | entry :: rest =>
    if entry.1 == name then (name, value) :: rest else entry :: insert name value rest

/-- The table in which the given pairs were inserted, one after the other. -/
def insertAll (table : Table α) (entries : List (String × α)) : Table α :=
  entries.foldl (fun table entry => insert entry.1 entry.2 table) table

/-- Puts an entry before the first one with a greater name. -/
def place (entry : String × α) : Table α → Table α
  | [] => [entry]
  | other :: rest =>
    if entry.1 < other.1 then entry :: other :: rest else other :: place entry rest

/-- The entries by increasing name. -/
def sorted (table : Table α) : Table α :=
  table.foldl (fun sorted entry => place entry sorted) []

end Table
end Xdr
