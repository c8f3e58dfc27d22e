import Xdr.Proofs.Decl.Reader

/-!
# Lexical errors come first

A source is reported for its lexical errors alone, if it has any, and for
all of them, wherever the parser has stopped.

The parser pulls tokens as it needs them and changes the table that the
scanner reads.  It may stop at any token, with another one looked at and
kept, and only then is the rest scanned for errors.  None of this shows in
the errors: they are those that the scanner alone would report.

## Main Statements

* `Scanner.faults_ofSource` — the errors of a source do not depend on the
  names known
* `Decl.parse_lexical_iff_exhaust` — the lexical errors of a source are
  those of its scanner
-/

namespace Xdr

namespace Scanner

/-- The errors of a source are those of its lexer, whatever names are known.
-/
theorem faults_ofSource (source : Source) (symbols : Symbols) :
    (ofSource source symbols).faults = Lexer.errors (Lexer.ofSource source).results :=
  (Follows.ofSource source symbols).faults (Source.lined_items source)

theorem exhaust_ofSource_eq_error {source symbols errors} :
    (ofSource source symbols).exhaust = .error errors ↔
      Lexer.errors (Lexer.ofSource source).results = errors ∧ errors ≠ [] :=
  (Follows.ofSource source symbols).exhaust_eq_error (Source.lined_items source)

end Scanner

namespace Decl

theorem report_eq_lexical {errors found outcome} :
    report errors outcome = .error (.lexical found) ↔ errors = found ∧ found ≠ [] := by
  cases errors with
  | nil =>
    refine iff_of_false ?_ ?_
    · cases outcome <;> exact nofun
    · rintro ⟨rfl, hne⟩
      exact hne rfl
  | cons error errors =>
    constructor
    · intro h
      cases h
      exact ⟨rfl, List.cons_ne_nil _ _⟩
    · rintro ⟨rfl, -⟩
      rfl

theorem eq_nil_of_report_eq_syntactic {errors outcome error}
    (h : report errors outcome = .error (.syntactic error)) : errors = [] := by
  cases errors with
  | nil => rfl
  | cons error errors => cases h

/-- **Lexical errors are complete and come first.**  Whatever the bytes of a
source are, and whatever names are known, the source is reported for exactly
the errors that exhausting its scanner reports, and for a syntax error only
where exhausting it reports none.  These are all errors of the scanner, with
any table.  Where the parser has failed, the errors set aside by then and
those that its scanner has still to meet are all of them, and draining the
reader brings them up; where it has succeeded, all of them are set aside.
So the outcome is the same as if everything were lexed first. -/
theorem parse_lexical_iff_exhaust (symbols : Symbols) (name : String) (bytes : List UInt8) :
    (∀ errors, parse symbols (.ofBytes name bytes) = .error (.lexical errors) ↔
      (Scanner.ofSource (.ofBytes name bytes) symbols).exhaust = .error errors) ∧
    (∀ errors, (Scanner.ofSource (.ofBytes name bytes) symbols).exhaust = .error errors →
      errors ≠ [] ∧
        ∀ known, (Scanner.ofSource (.ofBytes name bytes) known).faults = errors) ∧
    (∀ error, parse symbols (.ofBytes name bytes) = .error (.syntactic error) →
      ∃ tokens, (Scanner.ofSource (.ofBytes name bytes) symbols).exhaust = .ok tokens) ∧
    (∀ error reader,
      Parser.file (Reader.ofSource (.ofBytes name bytes) symbols) = .error (error, reader) →
      reader.errors ++ reader.scanner.faults =
          (Scanner.ofSource (.ofBytes name bytes) symbols).faults ∧
        reader.drain.errors = (Scanner.ofSource (.ofBytes name bytes) symbols).faults) ∧
    (∀ decls reader,
      Parser.file (Reader.ofSource (.ofBytes name bytes) symbols) = .ok (decls, reader) →
      reader.errors = (Scanner.ofSource (.ofBytes name bytes) symbols).faults ∧
        reader.scanner.faults = []) ∧
    parse symbols (.ofBytes name bytes) =
      report (Scanner.ofSource (.ofBytes name bytes) symbols).faults
        (ofLexemes symbols
          (Lexer.lexemes (Lexer.ofSource (.ofBytes name bytes)).results)) := by
  simp only [Scanner.faults_ofSource]
  refine ⟨fun errors => ?_, fun errors h => ?_, fun error h => ?_, fun error reader h => ?_,
    fun decls reader h => ?_, parse_eq_report _ _⟩
  · rw [parse_eq_report, report_eq_lexical, Scanner.exhaust_ofSource_eq_error]
  · obtain ⟨herrors, hne⟩ := Scanner.exhaust_ofSource_eq_error.mp h
    exact ⟨hne, fun _ => herrors⟩
  · rw [parse_eq_report] at h
    rw [(Scanner.Follows.ofSource _ symbols).exhaust (Source.lined_items _),
      eq_nil_of_report_eq_syntactic h]
    exact ⟨_, rfl⟩
  · cases reached symbols (.ofBytes name bytes) with
    | ok _ hreader => cases h.symm.trans hreader
    | error _ hreader hfollows =>
      cases h.symm.trans hreader
      exact ⟨hfollows.faults, hfollows.drain⟩
  · cases reached symbols (.ofBytes name bytes) with
    | ok _ hreader _ herrors hfaults =>
      cases h.symm.trans hreader
      exact ⟨herrors, hfaults⟩
    | error _ hreader => cases h.symm.trans hreader

end Decl
end Xdr
