/-!
# Reserved words

Names of an interface become names of the emitted module. A name that means
something else there gets an underscore appended.
-/

namespace Xdr

/-- Words that an emitted module cannot use as names: keywords and primitive
types of the emitted language, its prelude, the runtime's items, and the
locals of emitted functions. -/
def reservedWords : List String := [
  "as", "async", "await", "break", "const", "continue", "crate", "dyn", "else", "enum",
  "extern", "false", "fn", "for", "if", "impl", "in", "let", "loop", "match", "mod", "move",
  "mut", "pub", "ref", "return", "self", "Self", "static", "struct", "super", "trait", "true",
  "type", "unsafe", "use", "where", "while", "abstract", "become", "box", "do", "final",
  "macro", "override", "priv", "try", "typeof", "unsized", "virtual", "yield", "union",
  "macro_rules", "raw",
  "i8", "i16", "i32", "i64", "i128", "u8", "u16", "u32", "u64", "u128", "f32", "f64", "bool",
  "char", "usize", "isize", "str",
  "Option", "Some", "None", "Result", "Ok", "Err", "Vec", "String", "Box", "Default", "Clone",
  "Copy", "Debug", "PartialEq", "Eq", "Hash", "From", "Into", "Sized", "Send", "Sync", "Drop",
  "Fn", "FnMut", "FnOnce", "Iterator", "ToString", "ToOwned",
  "std", "core", "alloc", "xdr_runtime", "constant", "Packer", "Unpacker", "Xdr",
  "Structural", "Value", "Map", "XdrError", "Procedure", "structural",
  "packer", "unpacker", "item", "map", "value", "key", "result", "arm"]

/-- The emitted form of a name. No reserved word ends in an underscore, so
one is always enough. -/
def escapeWord (word : String) : String :=
  if reservedWords.contains word then word ++ "_" else word

end Xdr
