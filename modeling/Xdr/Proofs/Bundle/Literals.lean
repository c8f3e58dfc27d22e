import Xdr.Bundle.Basic
import Xdr.Proofs.Decl.Reader
import Xdr.Proofs.Decl.Lexemes
import Xdr.Proofs.Token.Exhaustion

/-!
# The literals of a source

A literal that the lexer yields has a canonical spelling without a trace of
the old one, and what it stands for in C is what it is evaluated to.  So
every literal of the declarations of a source has a value.

## Main Statements

* `Numeral.kept_of_check` — this holds of a literal that passes the check
* `Lexer.check_of_mem_results` — which is every literal among the results of
  the lexer
* `Lexer.literals_kept` — so it holds of the literals of any source
-/

namespace Xdr

open String

namespace Numeral

/-- The canonical spelling of a literal has no plus, no `0X` and no octal
digits without a mark.  It is its own canonical spelling, and is evaluated
to what the literal stands for. -/
structure Kept (text : String) : Prop where
  noPlus : (canonical text.toList).head? ≠ some '+'
  noUpperMark : 'X' ∉ canonical text.toList
  notOctal : ¬ Octal (splitSign (canonical text.toList)).2
  canonical_eq : canonical (canonical text.toList) = canonical text.toList
  evaluate_eq : ∀ bundle : Bundle,
    bundle.evaluate (.literal (ofList (canonical text.toList))) = some (meaning text.toList)

/-- **A literal that passes the check is kept.** -/
theorem kept_of_check {text : String} (h : check text.toList = none) : Kept text := by
  obtain ⟨negative, body, _, hcanonical, hplain, _⟩ := exists_plain h
  refine ⟨?_, ?_, ?_, canonical_canonical h, fun bundle => ?_⟩
  · rw [hcanonical]
    cases negative with
    | true => exact fun hhead => absurd (Option.some.inj hhead) (by decide)
    | false => exact hplain.unsigned.head?_ne (by decide) (by decide)
  · rw [hcanonical, List.mem_append, not_or]
    refine ⟨?_, hplain.unsigned.notMem (by decide) (by decide)⟩
    cases negative <;> decide
  · rw [hcanonical, hplain.splitSign_eq]
    exact hplain.not_octal
  · have heval : bundle.evaluate (.literal (ofList (canonical text.toList))) =
        value? (ofList (canonical text.toList)).toList := rfl
    rw [heval, toList_ofList, value?_canonical h]

end Numeral

namespace Lexer

/-- **Every literal among the results has passed the check.** -/
theorem check_of_mem_results {lexer : Lexer} {span : Span} {text : String}
    (h : .ok ⟨span, .literal text⟩ ∈ lexer.results) : Numeral.check text.toList = none :=
  check_of_mem_lexemes (List.mem_filterMap.mpr ⟨_, h, rfl⟩)

/-- **The literals of a source are kept**: those that the lexer accepts,
whatever else it reports, and those that stand anywhere in the declarations
of a source that is parsed. -/
theorem literals_kept (source : Source) :
    (∀ span text, .ok ⟨span, .literal text⟩ ∈ (ofSource source).results → Numeral.Kept text) ∧
      ∀ symbols parsed, Decl.parse symbols source = .ok parsed → ∀ decl ∈ parsed.decls,
        ∀ text, .literal text ∈ decl.lexemes → Numeral.Kept text := by
  refine ⟨fun span text h => Numeral.kept_of_check (check_of_mem_results h), ?_⟩
  intro symbols parsed hparse decl hdecl text htext
  -- A literal of a declaration is one of the lexemes of the source.
  have hfile := (Decl.ofLexemes_eq_ok.mp (Decl.parse_eq_ok.mp hparse).2).1
  obtain ⟨⟨span, lexeme⟩, hmem, rfl⟩ := List.mem_map.mp (hfile.lexemes_subset hdecl htext)
  exact Numeral.kept_of_check (check_of_mem_lexemes hmem)

/-- A constant with a signed octal literal. -/
def octalText : String :=
  "const A = -0777;"

theorem parse_octalText :
    ∃ parsed, Decl.parse .initial (Source.ofText "test.x" octalText) = .ok parsed ∧
      parsed.decls = [.const ⟨"A", .literal "-0777"⟩] :=
  Decl.exists_parsed (by decide +kernel)

/-- The literal becomes `-0o777`, which is evaluated to what `-0777` stands
for. -/
theorem literals_kept_octalText :
    (∃ parsed, Decl.parse .initial (Source.ofText "test.x" octalText) = .ok parsed ∧
      parsed.decls = [.const ⟨"A", .literal "-0777"⟩]) ∧
    Numeral.canonical "-0777".toList = "-0o777".toList ∧
    Numeral.meaning "-0777".toList = -511 ∧
    ∀ bundle : Bundle, bundle.evaluate (.literal "-0o777") = some (-511) := by
  obtain ⟨parsed, hparse, hdecls⟩ := parse_octalText
  have hkept := (literals_kept _).2 .initial parsed hparse _
    (hdecls ▸ List.mem_cons_self) "-0777" (by decide)
  exact ⟨⟨parsed, hparse, hdecls⟩, by decide, by decide, hkept.evaluate_eq⟩

end Lexer
end Xdr
