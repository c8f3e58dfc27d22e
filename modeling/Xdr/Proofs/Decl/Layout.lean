import Xdr.Proofs.Decl.Reader
import Xdr.Proofs.Token.Composition

/-!
# Layout

Blanks, comments, directives and line breaks mean nothing: sources that
consist of the same lexemes have the same declarations and leave the same
names known, or they have the same syntax error.  Only places differ.

## Main Statements

* `Decl.ofLexemes_congr` — the places of lexemes matter only for the places
  of errors
* `Decl.parse_eq_of_consistsOf` — sources that consist of the same lexemes
-/

namespace Xdr

open Xdr.Parser

namespace Decl

/-- **The places of lexemes matter only for the places of errors.** -/
theorem ofLexemes_congr (symbols : Symbols) {lexemes lexemes' : List (Located Lexeme)}
    (h : lexemes.map Located.value = lexemes'.map Located.value) :
    (∃ parsed,
      ofLexemes symbols lexemes = .ok parsed ∧ ofLexemes symbols lexemes' = .ok parsed) ∨
      ∃ span span' error, ofLexemes symbols lexemes = .error ⟨span, error⟩ ∧
        ofLexemes symbols lexemes' = .error ⟨span', error⟩ := by
  -- Any two places correspond here.
  have hrest : List.Forall₂ (Located.Moved fun _ _ => True) lexemes lexemes' := by
    refine (List.forall₂_map_left_iff.mp (List.forall₂_map_right_iff.mp ?_)).imp
      fun _ _ hvalue => ⟨hvalue, trivial⟩
    rw [h]
    exact List.forall₂_same.mpr fun _ _ => rfl
  have houtcomes := @Parser.corresponds_file _ _ _ true _
    (moved (fun _ _ => True) .redeclared) _ _
    (.intro hrest trivial : Cursor.Moved _ symbols
      ⟨lexemes, symbols, .single .first⟩ ⟨lexemes', symbols, .single .first⟩)
  change Outcomes _ _ _ _ (fileWith .redeclared _) at houtcomes
  rw [fileWith_redeclared] at houtcomes
  unfold ofLexemes
  generalize file (Cursor.mk lexemes symbols (.single .first)) = outcome,
    file (Cursor.mk lexemes' symbols (.single .first)) = outcome' at houtcomes ⊢
  cases houtcomes with
  | @ok decls _ _ _ after hvalue hstop =>
    obtain ⟨rfl, -⟩ := hvalue
    obtain ⟨-, -⟩ := hstop
    exact .inl ⟨⟨decls, after.symbols⟩, rfl, rfl⟩
  | @error error error' herror =>
    obtain ⟨span, found⟩ := error
    obtain ⟨span', found'⟩ := error'
    obtain ⟨-, hsame⟩ := herror
    rw [SyntaxError.renamed_redeclared] at hsame
    obtain rfl : found' = found := hsame
    exact .inr ⟨span, span', _, rfl, rfl⟩

/-- **Layout means nothing**: a source without lexical errors consists of
one sequence of lexemes, and sources that consist of the same lexemes have
the same declarations and leave the same names known, or they have the same
syntax error, whatever names were known before. -/
theorem parse_eq_of_consistsOf (symbols : Symbols) (name name' : String)
    (bytes bytes' : List UInt8) :
    (Lexer.errors (Lexer.ofSource (.ofBytes name bytes)).results = [] ↔
      ∃! lexemes, (Source.ofBytes name bytes).ConsistsOf lexemes) ∧
    ∀ lexemes, (Source.ofBytes name bytes).ConsistsOf lexemes →
      (Source.ofBytes name' bytes').ConsistsOf lexemes →
      (∃ parsed, parse symbols (.ofBytes name bytes) = .ok parsed ∧
        parse symbols (.ofBytes name' bytes') = .ok parsed) ∨
      ∃ span span' error,
        parse symbols (.ofBytes name bytes) = .error (.syntactic ⟨span, error⟩) ∧
        parse symbols (.ofBytes name' bytes') = .error (.syntactic ⟨span', error⟩) := by
  refine ⟨Source.errors_eq_nil_iff, fun lexemes h h' => ?_⟩
  obtain ⟨hclean, hlexemes⟩ := Source.lexemes_of_consistsOf h
  obtain ⟨hclean', hlexemes'⟩ := Source.lexemes_of_consistsOf h'
  rw [parse_of_errors_eq_nil hclean, parse_of_errors_eq_nil hclean']
  obtain ⟨parsed, hparsed, hparsed'⟩ | ⟨span, span', error, herror, herror'⟩ :=
    ofLexemes_congr symbols (hlexemes.trans hlexemes'.symm)
  · rw [hparsed, hparsed']
    exact .inl ⟨parsed, rfl, rfl⟩
  · rw [herror, herror']
    exact .inr ⟨span, span', error, rfl, rfl⟩

/-- A constant on one line, and the same over three lines with a comment, a
directive and no blanks where none are needed. -/
theorem parse_eq_of_consistsOf_constant :
    ∃ lexemes, (Source.ofText "line" "const A = -1;").ConsistsOf lexemes ∧
      (Source.ofText "lines" "/* A */ const\n% as is\nA=-1; // end").ConsistsOf lexemes ∧
      ((∃ parsed, parse .initial (.ofText "line" "const A = -1;") = .ok parsed ∧
        parse .initial (.ofText "lines" "/* A */ const\n% as is\nA=-1; // end") =
          .ok parsed) ∨
        ∃ span span' error,
          parse .initial (.ofText "line" "const A = -1;") =
            .error (.syntactic ⟨span, error⟩) ∧
          parse .initial (.ofText "lines" "/* A */ const\n% as is\nA=-1; // end") =
            .error (.syntactic ⟨span', error⟩)) := by
  have hline : (Source.ofText "line" "const A = -1;").ConsistsOf _ :=
    Source.consistsOf_lexemes (by decide +kernel)
  have hsame : (Lexer.lexemes (Lexer.ofSource (.ofText "line" "const A = -1;")).results).map
    Located.value = (Lexer.lexemes (Lexer.ofSource
        (.ofText "lines" "/* A */ const\n% as is\nA=-1; // end")).results).map
          Located.value := by
    decide +kernel
  have hlines : (Source.ofText "lines" "/* A */ const\n% as is\nA=-1; // end").ConsistsOf
      ((Lexer.lexemes (Lexer.ofSource (.ofText "line" "const A = -1;")).results).map
        Located.value) := by
    rw [hsame]
    exact Source.consistsOf_lexemes (by decide +kernel)
  exact ⟨_, hline, hlines, (parse_eq_of_consistsOf .initial _ _ _ _).2 _ hline hlines⟩

end Decl
end Xdr
