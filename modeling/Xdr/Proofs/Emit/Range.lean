import Xdr.Proofs.Bundle.Numbers
import Xdr.Proofs.Emit.FirstViolation
import Xdr.Proofs.Token.Exhaustion

/-!
# The range of lengths and numbers

A length or number is checked by the integer it is evaluated to, which has
to be unsigned and of 32 bits.  What evaluation does not find is emitted all
the same.  So emitted code has a number out of range, or one that is no
integer at all, only where names lead too far or to an integer from outside
that is too great.

## Main Statements

* `Emit.admits_of_passes` — in a bundle that passes, every length and number
  can be emitted
* `Emit.definitionsOf_ne_nil_of_passes` — and leads to no name that is not
  defined
* `Compile.number_range_of_code` — what this makes of the numbers of a
  source that is compiled
-/

namespace Xdr

open Compile List

namespace Bundle

variable {bundle : Bundle} {value : IntExpr}

/-- Following names from an expression leads to the literal of an integer in
so many steps. -/
def Amounts (bundle : Bundle) (steps : Nat) (expr : IntExpr) (value : Int) : Prop :=
  ∃ text, bundle.Follows steps expr (.literal text) ∧ Numeral.value? text.toList = some value

theorem Amounts.evaluate_eq {steps number} (h : bundle.Amounts steps value number)
    (hle : steps ≤ maxSteps) : bundle.evaluate value = some number := by
  obtain ⟨text, hfollows, hvalue⟩ := h
  rw [evaluate, evaluateWithin_of_follows hfollows hle, hvalue]

/-- A length or number that can be emitted is not given by an undefined
name. -/
theorem Knows.definitionsOf_ne_nil {name} (h : bundle.Knows (.name name)) :
    bundle.definitionsOf name ≠ [] := by
  intro hnil
  have hsome := h name rfl
  rw [find?_expressions, reference?, hnil] at hsome
  cases hsome

theorem definitionsOf_ne_nil_of_evaluate {name} (h : (bundle.evaluate (.name name)).isSome) :
    bundle.definitionsOf name ≠ [] := by
  intro hnil
  rw [evaluate, maxSteps, evaluateWithin_name, hnil] at h
  cases h

theorem Holds.counts {type : TypeRef} {form} (h : bundle.Holds type form) :
    ∀ length ∈ form.lengths, bundle.Counts length := by
  intro length hlength
  cases form with
  | plain | pointer => cases hlength
  | array bound fixed =>
    obtain rfl := Option.mem_toList.mp hlength
    exact h.counted length fixed rfl

/-- What can be emitted is in range, if it can be evaluated. -/
theorem Counts.range (h : bundle.Counts value) {number}
    (hvalue : bundle.evaluate value = some number) : 0 ≤ number ∧ number ≤ maxUnsigned :=
  h.inRange number hvalue

end Bundle

namespace Emit

variable {bundle : Bundle} (hpasses : Passes bundle)
include hpasses

/-- **Every length and number of a bundle that passes can be emitted**, if
the arrays in its unions belong to fields. -/
theorem admits_of_passes
    (hfields : ∀ decl ∈ bundle.unions, ∀ case ∈ decl.cases, ∀ length ∈ case.form.lengths,
      ∃ field, case.field? = some field ∧ field.form = case.form) :
    ∀ number ∈ bundle.numbers, bundle.Counts number := by
  intro number hnumber
  simp only [Bundle.numbers, mem_append, mem_flatMap] at hnumber
  rcases hnumber with ((⟨decl, hdecl, hlength⟩ | ⟨decl, hdecl, hlength⟩) |
    ⟨field, hfield, hlength⟩) | ⟨decl, hdecl, hmem⟩
  · obtain ⟨field, hfield, hlength⟩ := mem_flatMap.mp hlength
    exact (hpasses.formed.structs decl hdecl field hfield).counts number hlength
  · obtain ⟨case, hcase, hlength⟩ := mem_flatMap.mp hlength
    obtain ⟨field, hfield, hform⟩ := hfields decl hdecl case hcase number hlength
    have hmem : field ∈ decl.fields := mem_filterMap.mpr ⟨case, hcase, hfield⟩
    exact ((hpasses.formed.unions decl hdecl).fields field hmem).counts number
      (hform ▸ hlength)
  · exact (hpasses.formed.typedefs field hfield).counts number hlength
  · have hservice := hpasses.formed.programs decl hdecl
    rcases mem_cons.mp hmem with rfl | hmem
    · exact hservice.number
    · obtain ⟨version, hversion, hmem⟩ := mem_flatMap.mp hmem
      rcases mem_cons.mp hmem with rfl | hmap
      · exact hservice.versions version hversion
      · obtain ⟨proc, hproc, rfl⟩ := mem_map.mp hmap
        exact (hservice.procs version hversion proc hproc).id

/-- **No name on the way is undefined.**  A constant that is given by a name
is emitted as an expression, and a member as the number it is evaluated to. -/
theorem definitionsOf_ne_nil_of_passes {number : IntExpr} (h : bundle.Counts number)
    {steps : Nat} {name : String}
    (hfollows : bundle.Follows steps number (.name name)) :
    bundle.definitionsOf name ≠ [] := by
  rcases hfollows.eq_or_exists with rfl | ⟨⟨reference, value⟩, hdefinition, rfl⟩
  · exact h.known.definitionsOf_ne_nil
  · generalize hvalue : IntExpr.name name = value at hdefinition
    cases Bundle.refersTo_iff.mpr hdefinition with
    | true | false => cases hvalue
    | @constant decl hdecl =>
      exact (hvalue ▸ hpasses.formed.consts decl hdecl).definitionsOf_ne_nil
    | @member decl member hdecl hmember =>
      have hsome :=
        (hpasses.formed.enums decl hdecl).evaluated member hmember name hvalue.symm
      exact Bundle.definitionsOf_ne_nil_of_evaluate (hvalue ▸ hsome)

end Emit

namespace Compile

theorem exists_bundle_of_code {options name text code}
    (h : Compile.code options name text = .ok code) :
    ∃ bundle, Compile.bundle options name text = .ok bundle ∧
      Emit.generate options.emit bundle = .ok code := by
  obtain ⟨bundle, hbundle, hcode⟩ := bind_eq_ok.mp h
  refine ⟨bundle, hbundle, ?_⟩
  cases hgenerate : Emit.generate options.emit bundle with
  | error error =>
    rw [hgenerate] at hcode
    cases hcode
  | ok text =>
    rw [hgenerate] at hcode
    cases hcode
    rfl

/-- **The range of lengths and numbers.**  In the bundle of a source that is
compiled, following the names in a length, bound or number never leads to a
name that is not defined.  An integer that it leads to through at most
`maxSteps` names is unsigned and of 32 bits.  There is such an integer
unless it still leads to a name after so many, or to an integer that was
defined from outside and is not one of 64 bits. -/
theorem number_range_of_code {options : Options} {name text code : String}
    (h : Compile.code options name text = .ok code) :
    ∃ bundle, Compile.bundle options name text = .ok bundle ∧ ∀ number ∈ bundle.numbers,
      (∀ steps other, bundle.Follows steps number (.name other) →
        bundle.definitionsOf other ≠ []) ∧
      (∀ steps ≤ Bundle.maxSteps, ∀ value, bundle.Amounts steps number value →
        0 ≤ value ∧ value ≤ Bundle.maxUnsigned) ∧
      ((∃ steps ≤ Bundle.maxSteps, ∃ value, bundle.Amounts steps number value) ∨
        (∃ other, bundle.Follows Bundle.maxSteps number (.name other)) ∨
        ∃ steps ≤ Bundle.maxSteps, ∃ define ∈ options.defines, ∃ digits,
        define.value = .int digits ∧ Numeral.value? (Numeral.canonical digits.toList) = none ∧
          bundle.Follows steps number (IntExpr.canonical (.literal digits))) := by
  obtain ⟨bundle, hbundle, hgenerate⟩ := exists_bundle_of_code h
  obtain ⟨decls, hfile, rfl⟩ := exists_decls_of_bundle hbundle
  have hpasses := Emit.passes_of_generate hgenerate
  have hadmits := Emit.admits_of_passes hpasses fun decl hdecl case hcase length hlength =>
    Bundle.exists_field_of_mem_unions hfile hdecl hcase hlength
  have hcheck : ∀ {literal : String}, .literal literal ∈ (Lexer.lexemes
      (Lexer.ofSource (Source.ofText name text)).results).map Located.value →
      Numeral.check literal.toList = none := by
    intro literal hmem
    obtain ⟨⟨span, lexeme⟩, hlexeme, rfl⟩ := mem_map.mp hmem
    exact Lexer.check_of_mem_lexemes hlexeme
  refine ⟨_, hbundle, fun number hnumber => ?_⟩
  have hdefined : ∀ steps other,
    (Bundle.ofDecls decls options.defines).Follows steps number (.name other) →
      (Bundle.ofDecls decls options.defines).definitionsOf other ≠ [] :=
    fun steps other => Emit.definitionsOf_ne_nil_of_passes hpasses (hadmits number hnumber)
  refine ⟨hdefined, fun steps hle value hamounts => ?_, ?_⟩
  · exact (hadmits number hnumber).range (hamounts.evaluate_eq hle)
  · rcases Bundle.exists_follows hdefined Bundle.maxSteps with ⟨steps, hle, literal,
      hfollows⟩ | hfar
    · cases hvalue : Numeral.value? literal.toList with
      | some value => exact .inl ⟨steps, hle, value, literal, hfollows, hvalue⟩
      | none =>
        obtain ⟨define, hdefine, digits, hdigits, hspelled⟩ :=
          Bundle.exists_define_of_follows hfile hcheck hnumber hfollows hvalue
        cases hspelled
        rw [String.toList_ofList] at hvalue
        exact .inr (.inr ⟨steps, hle, define, hdefine, digits, hdigits, hvalue, hfollows⟩)
    · exact .inr (.inl hfar)

/-- Two constants that are given by each other, and an array with one of
them as its bound. -/
def circularText : String :=
  "const A = B; const B = A; typedef int v<A>;"

/-- The bundle of these declarations. -/
def circle : Bundle where
  consts := [⟨"A", .name "B"⟩, ⟨"B", .name "A"⟩]
  enums := []
  structs := []
  unions := []
  typedefs := [⟨"v", .int, .array (some (.name "A")) false⟩]
  programs := []

theorem bundle_circle : bundle ⟨[], .standard⟩ "test.x" circularText = .ok circle :=
  eq_ok_of_toOption (by decide +kernel)

theorem exists_code_circle :
    ∃ code, Compile.code ⟨[], .standard⟩ "test.x" circularText = .ok code :=
  exists_ok_of_isOk (by decide +kernel)

/-- In a circle every step leads to one of its names. -/
theorem eq_name_of_follows_circle {steps expr last} (h : circle.Follows steps expr last)
    (hexpr : expr = .name "A" ∨ expr = .name "B") : last = .name "A" ∨ last = .name "B" := by
  induction h with
  | refl expr => exact hexpr
  | step hfirst _ ih =>
    apply ih
    rcases hexpr with heq | heq <;> cases heq
    · have hB : (circle.definitionsOf "A").head? = some ⟨.constant "A", .name "B"⟩ := by
        decide
      cases hfirst.symm.trans hB
      exact .inr rfl
    · have hA : (circle.definitionsOf "B").head? = some ⟨.constant "B", .name "A"⟩ := by
        decide
      cases hfirst.symm.trans hA
      exact .inl rfl

/-- A circle of constants is compiled, although the bound of the array is no
integer: after as many names as are followed there is still a name, and so
it is after any number of them. -/
theorem not_amounts_circle :
    (∃ code, Compile.code ⟨[], .standard⟩ "test.x" circularText = .ok code) ∧
      Compile.bundle ⟨[], .standard⟩ "test.x" circularText = .ok circle ∧
      .name "A" ∈ circle.numbers ∧
      (∃ other, circle.Follows Bundle.maxSteps (.name "A") (.name other)) ∧
      ∀ steps value, ¬ circle.Amounts steps (.name "A") value := by
  have hnever : ∀ steps value, ¬ circle.Amounts steps (.name "A") value := by
    rintro steps value ⟨text, hfollows, _⟩
    rcases eq_name_of_follows_circle hfollows (.inl rfl) with heq | heq <;> cases heq
  obtain ⟨code, hcode⟩ := exists_code_circle
  obtain ⟨bundle, hbundle, hnumbers⟩ := number_range_of_code hcode
  obtain rfl : circle = bundle := Except.ok.inj (bundle_circle.symm.trans hbundle)
  refine ⟨⟨code, hcode⟩, hbundle, by decide, ?_, hnever⟩
  obtain ⟨_, _, ⟨steps, _, value, hamounts⟩ | hfar | ⟨_, _, _, hdefine, _⟩⟩ :=
    hnumbers (.name "A") (by decide)
  · exact absurd hamounts (hnever steps value)
  · exact hfar
  · cases hdefine

end Compile
end Xdr
