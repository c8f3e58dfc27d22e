/-!
# Blank characters

The characters that separate words: those with the Unicode property
`White_Space`.
-/

namespace Xdr.Text

/-- A character with the Unicode property `White_Space`. -/
def isBlank (c : Char) : Bool :=
  let n := c.toNat
  (0x09 ≤ n && n ≤ 0x0d) || n == 0x20 || n == 0x85 || n == 0xa0 || n == 0x1680 ||
    (0x2000 ≤ n && n ≤ 0x200a) || n == 0x2028 || n == 0x2029 || n == 0x202f || n == 0x205f ||
    n == 0x3000

/-- A text without its leading and trailing blanks. -/
def trim (cs : List Char) : List Char :=
  ((cs.dropWhile isBlank).reverse.dropWhile isBlank).reverse

/-- The blank-free runs of a text, given the run `current` that is open in
front of it. -/
def fieldsFrom (current : List Char) : List Char → List (List Char)
  | [] => if current.isEmpty then [] else [current]
  | c :: cs =>
    if isBlank c then
      if current.isEmpty then fieldsFrom [] cs else current :: fieldsFrom [] cs
    else fieldsFrom (current ++ [c]) cs

/-- The maximal blank-free runs of a text, in order. -/
def fields (cs : List Char) : List (List Char) :=
  fieldsFrom [] cs

end Xdr.Text
