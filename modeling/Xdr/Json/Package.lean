import Xdr.Json.Reader
import Xdr.Json.Writer

/-!
# JSON packages

What the text form of a value asks of a package for JSON.

## Design Notes

The package is not a part of this development, so it is a parameter wherever
texts are written or read. The writer and the reader beside it stand in for
one where a text is to be had without it.
-/

namespace Xdr.Json

/-- A package for JSON: it writes values as texts, unless it fails, and
reads the value that a text spells, if it spells one. -/
structure Package where
  write : Json → Option String
  read : String → Option Json

/-- A package that writes without blanks, and reads up to a depth of
nesting. -/
def Package.standard : Package where
  write value := some value.compact
  read := parse

end Xdr.Json
