import Xdr.Compile
import Xdr.Proofs.Bundle.Definitions
import Xdr.Proofs.Decl.Reader
import Xdr.Proofs.Decl.Declared
import Xdr.Proofs.Results

/-!
# Agreement of evaluation and reference

A name is checked by the number it is evaluated to, and emitted as a
reference to one of its definitions.  The number of that definition is the
one checked if the first and the last definition of the name have the same
value.  Where this holds for all names, emitted code computes with the
numbers that were checked.

## Main Statements

* `Bundle.agrees_iff` — it has if the first definition of the name has that
  value
* `Bundle.eq_of_named_constant` — a constant that is given by a name shares
  its own with members only
* `Bundle.denotes_of_evaluateWithin` — agreement makes what is checked what
  is emitted
* `Compile.agrees_iff_of_bundle` — all of this, for the bundle of a source
-/

namespace Xdr

open Compile List Symbols

namespace Bundle

variable {bundle : Bundle} {name : String} {decl : ConstDecl}

/-- What the expression of a name refers to has the value that the name is
evaluated to. -/
def Agrees (bundle : Bundle) (name : String) : Prop :=
  ∀ reference item, bundle.reference? name = some reference → bundle.RefersTo reference item →
    bundle.evaluate item = bundle.evaluate (.name name)

/-- A name agrees if its first definition has the value of what its last one
refers to. -/
theorem agrees_iff {first last} (hfirst : (bundle.definitionsOf name).head? = some first)
    (hlast : (bundle.definitionsOf name).getLast? = some last) :
    bundle.Agrees name ↔ ∀ definition ∈ bundle.definitionsOf name,
      definition.reference = last.reference →
        bundle.evaluate definition.value =
          bundle.evaluateWithin (maxSteps - 1) first.value := by
  have heval :
    bundle.evaluate (.name name) = bundle.evaluateWithin (maxSteps - 1) first.value := by
    rw [evaluate, maxSteps, evaluateWithin_name, hfirst]
    rfl
  have hreference : bundle.reference? name = some last.reference := by
    rw [reference?, hlast]
    rfl
  constructor
  · intro h definition hmem heq
    have hrefers := refersTo_iff.mpr (mem_definitionsOf.mp hmem).1
    rw [heq] at hrefers
    rw [← heval]
    exact h _ _ hreference hrefers
  · intro h reference item hfound hrefers
    obtain rfl : last.reference = reference := Option.some.inj (hreference.symm.trans hfound)
    rw [heval]
    refine h ⟨last.reference, item⟩ (mem_definitionsOf.mpr ⟨refersTo_iff.mp hrefers, ?_⟩) rfl
    exact (mem_definitionsOf.mp (mem_of_getLast? hlast)).2

/-- A name that has a value is emitted. -/
theorem exists_reference_of_evaluateWithin {steps value}
    (h : bundle.evaluateWithin steps (.name name) = some value) :
    ∃ reference, bundle.reference? name = some reference := by
  cases steps with
  | zero => cases h
  | succ steps =>
    rw [evaluateWithin_name, Option.bind_eq_some_iff] at h
    obtain ⟨first, hfirst, _⟩ := h
    have hne : bundle.definitionsOf name ≠ [] := ne_nil_of_mem (mem_of_head? hfirst)
    rw [reference?, getLast?_eq_some_getLast hne]
    exact ⟨_, rfl⟩

/-! ### Constants of a source -/

/-- The declared constants. -/
theorem mem_consts_ofDecls {decls defines} :
    decl ∈ (ofDecls decls defines).consts ↔
      (∃ outside ∈ outsideConsts decls defines, outside.canonical = decl) ∨
        ∃ declared, .const declared ∈ decls ∧ declared.canonical = decl := by
  rw [ofDecls, mem_map]
  constructor
  · rintro ⟨source, hsource, rfl⟩
    rcases mem_append.mp hsource with houtside | hdeclared
    · exact .inl ⟨source, houtside, rfl⟩
    · obtain ⟨other, hother, heq⟩ := mem_filterMap.mp hdeclared
      cases other <;> cases heq
      exact .inr ⟨source, hother, rfl⟩
  · rintro (⟨source, houtside, rfl⟩ | ⟨source, hdeclared, rfl⟩)
    · exact ⟨source, mem_append_left _ houtside, rfl⟩
    · exact ⟨source, mem_append_right _ (mem_filterMap.mpr ⟨_, hdeclared, rfl⟩), rfl⟩

/-- A constant from outside is a literal whose name no declaration bears. -/
theorem of_mem_outsideConsts {decls defines} (h : decl ∈ outsideConsts decls defines) :
    (∃ digits, decl.value = .literal digits) ∧ ∀ other ∈ decls, other.name ≠ decl.name := by
  obtain ⟨define, _, hsome⟩ := mem_filterMap.mp h
  dsimp only at hsome
  split at hsome
  · split at hsome
    · cases hsome
    · next hany =>
      cases hsome
      exact ⟨⟨_, rfl⟩, by simpa using hany⟩
  · cases hsome

section Source

open Grammar

variable {decls : List Decl} {defines : List Define} {lexemes : List Lexeme}
  (hfile : File (ofDefines defines) decls lexemes)
include hfile

/-- A constant that is given by a name shares its own name with members
only. -/
theorem eq_of_named_constant (hdecl : decl ∈ (ofDecls decls defines).consts) {target}
    (hvalue : decl.value = .name target) {definition}
    (hmem : definition ∈ truths ++ (ofDecls decls defines).constDefinitions)
    (hname : definition.reference.name = decl.name) :
    definition = ⟨.constant decl.name, decl.value⟩ := by
  -- The constant is declared: what comes from outside is a literal.
  obtain ⟨declared, hdeclared, rfl⟩ : ∃ declared,
    .const declared ∈ decls ∧ declared.canonical = decl := by
    rcases mem_consts_ofDecls.mp hdecl with ⟨outside, houtside, rfl⟩ | h
    · obtain ⟨⟨digits, hdigits⟩, _⟩ := of_mem_outsideConsts houtside
      rw [ConstDecl.canonical, ConstDecl.mapValues, hdigits] at hvalue
      cases hvalue
    · exact h
  have hnew : (ofDefines defines).classOf? declared.name = none :=
    hfile.nodup_knownNames.2 _ (mem_filterMap.mpr ⟨_, hdeclared, rfl⟩)
  rcases mem_append.mp hmem with htruth | hconst
  · -- The truth values are known from the start.
    have hknown : initial.classOf? definition.reference.name ≠ none := by
      rcases mem_pair.mp htruth with rfl | rfl <;> decide
    rw [hname] at hknown
    exact absurd hnew (classOf?_ofDefines_ne_none hknown defines)
  · obtain ⟨other, hother, rfl⟩ := mem_map.mp hconst
    rcases mem_consts_ofDecls.mp hother with ⟨outside, houtside, rfl⟩ | ⟨again, hagain, rfl⟩
    · exact absurd hname.symm ((of_mem_outsideConsts houtside).2 _ hdeclared)
    · have hname' : (Decl.const again).knownName? = some declared.name := congrArg some hname
      cases hfile.eq_of_knownName?_eq hdeclared hagain rfl hname'
      rfl

/-- If the last definition of a name is a constant that is given by a name,
it is also the first. -/
theorem head?_eq_of_named_constant
    (hlast : ((ofDecls decls defines).definitionsOf name).getLast? =
      some ⟨.constant decl.name, decl.value⟩) (hdecl : decl ∈ (ofDecls decls defines).consts)
    {target} (hvalue : decl.value = .name target) :
    ((ofDecls decls defines).definitionsOf name).head? =
      some ⟨.constant decl.name, decl.value⟩ := by
  have hname : decl.name = name := (mem_definitionsOf.mp (mem_of_getLast? hlast)).2
  rw [definitionsOf, definitions, filter_append, getLast?_append,
    Option.or_eq_some_iff] at hlast
  rw [definitionsOf, definitions, filter_append]
  rcases hlast with hmember | ⟨hnone, hlast⟩
  · -- The last definition would be a member.
    have hmem := (mem_filter.mp (mem_of_getLast? hmember)).1
    obtain ⟨_, _, hmap⟩ := mem_flatMap.mp hmem
    obtain ⟨_, _, heq⟩ := mem_map.mp hmap
    cases heq
  · rw [getLast?_eq_none_iff.mp hnone, append_nil]
    cases hhead :
      ((truths ++ (ofDecls decls defines).constDefinitions).filter fun definition =>
        definition.reference.name == name).head? with
    | none =>
      rw [head?_eq_none_iff.mp hhead] at hlast
      cases hlast
    | some first =>
      obtain ⟨hmem, hfirst⟩ := mem_filter.mp (mem_of_head? hhead)
      rw [eq_of_named_constant hfile hdecl hvalue hmem
        ((beq_iff_eq.mp hfirst).trans hname.symm)]

/-- **Agreement makes what is checked what is emitted.**  The induction is
on the names that the value is found through: a constant that is given by a
name has no other definition, so the next name is the same for both. -/
theorem denotes_of_evaluateWithin (hagrees : ∀ name, (ofDecls decls defines).Agrees name)
    {steps : Nat} (hsteps : steps ≤ maxSteps) {reference : Reference} {value : Int}
    (hreference : (ofDecls decls defines).reference? name = some reference)
    (hvalue : (ofDecls decls defines).evaluateWithin steps (.name name) = some value) :
    (ofDecls decls defines).Denotes reference value := by
  induction steps generalizing name reference with
  | zero => cases hvalue
  | succ steps ih =>
    obtain ⟨⟨_, item⟩, hlast, rfl⟩ := Option.map_eq_some_iff.mp hreference
    have hrefers := refersTo_iff.mpr (mem_definitionsOf.mp (mem_of_getLast? hlast)).1
    have hitem : (ofDecls decls defines).evaluate item = some value :=
      (hagrees name _ _ hreference hrefers).trans (evaluateWithin_mono hsteps hvalue)
    cases hrefers with
    | true =>
      cases hitem
      exact .true
    | false =>
      cases hitem
      exact .false
    | member hdecl hmember => exact .member hdecl hmember hitem
    | @constant decl hdecl =>
      cases hexpr : decl.value with
      | literal text =>
        rw [hexpr, evaluate, evaluateWithin_literal] at hitem
        exact .literal hdecl hexpr hitem
      | name other =>
        -- Evaluation and emission go on with the same name, and one step less.
        have hfirst := head?_eq_of_named_constant hfile hlast hdecl hexpr
        rw [evaluateWithin_name, hfirst, Option.bind_some, hexpr] at hvalue
        obtain ⟨reference, hreference'⟩ := exists_reference_of_evaluateWithin hvalue
        exact .named hdecl hexpr hreference'
          (ih (Nat.le_of_succ_le hsteps) hreference' hvalue)

end Source

end Bundle

namespace Compile

/-- A bundle is made of declarations that the lexemes of the text spell. -/
theorem exists_decls_of_bundle {options name text bundle}
    (h : Compile.bundle options name text = .ok bundle) :
    ∃ decls, Grammar.File (ofDefines options.defines) decls
        ((Lexer.lexemes (Lexer.ofSource (Source.ofText name text)).results).map
          Located.value) ∧
      bundle = Bundle.ofDecls decls options.defines := by
  rw [Compile.bundle, parse] at h
  cases hparse : Decl.parse (ofDefines options.defines) (Source.ofText name text) with
  | error failure =>
    rw [hparse] at h
    cases h
  | ok parsed =>
    rw [hparse] at h
    cases h
    exact ⟨_, (Decl.ofLexemes_eq_ok.mp (Decl.parse_eq_ok.mp hparse).2).1, rfl⟩

theorem exists_file_of_bundle {options name text bundle}
    (h : Compile.bundle options name text = .ok bundle) :
    ∃ decls lexemes, Grammar.File (ofDefines options.defines) decls lexemes ∧
      bundle = Bundle.ofDecls decls options.defines := by
  obtain ⟨decls, hfile, heq⟩ := exists_decls_of_bundle h
  exact ⟨decls, _, hfile, heq⟩

/-- **Where evaluation and reference agree.**  In the bundle of a source,
the expression of a name refers to its last definition.  What it refers to
has the value that the name is evaluated to if and only if that is the value
of the first definition.  If this is so for every name, then a name that has
a value is emitted as an expression that denotes it. -/
theorem agrees_iff_of_bundle {options : Options} {file text : String} {bundle : Bundle}
    (h : Compile.bundle options file text = .ok bundle) :
    (∀ name, bundle.expressions.find? name = (bundle.reference? name).map Reference.text) ∧
    (∀ name first last, (bundle.definitionsOf name).head? = some first →
      (bundle.definitionsOf name).getLast? = some last →
        (bundle.Agrees name ↔ ∀ definition ∈ bundle.definitionsOf name,
          definition.reference = last.reference →
            bundle.evaluate definition.value =
              bundle.evaluateWithin (Bundle.maxSteps - 1) first.value)) ∧
    ((∀ name, bundle.Agrees name) → ∀ name reference value,
      bundle.reference? name = some reference →
      bundle.evaluate (.name name) = some value → bundle.Denotes reference value) := by
  obtain ⟨decls, lexemes, hfile, rfl⟩ := exists_file_of_bundle h
  refine ⟨Bundle.find?_expressions _, fun name first last => Bundle.agrees_iff, ?_⟩
  intro hagrees name reference value hreference hvalue
  exact Bundle.denotes_of_evaluateWithin hfile hagrees (Nat.le_refl _) hreference hvalue

/-- Two enumerations that share a member's name. -/
def twoEnums : Bundle where
  consts := []
  enums := [⟨"A", [⟨"X", .literal "1"⟩]⟩, ⟨"B", [⟨"X", .literal "2"⟩]⟩]
  structs := []
  unions := []
  typedefs := []
  programs := []

theorem bundle_twoEnums :
    bundle ⟨[], .standard⟩ "test.x" "enum A \x7b X = 1 \x7d; enum B \x7b X = 2 \x7d;" =
      .ok twoEnums :=
  eq_ok_of_toOption (by decide +kernel)

/-- The shared name is evaluated to the member of the first enumeration, and
emitted as that of the second. -/
theorem not_agrees_twoEnums :
    Compile.bundle ⟨[], .standard⟩ "test.x"
      "enum A \x7b X = 1 \x7d; enum B \x7b X = 2 \x7d;" = .ok twoEnums ∧
      twoEnums.expressions.find? "X" = some "B::X" ∧
      twoEnums.evaluate (.name "X") = some 1 ∧ ¬ twoEnums.Agrees "X" := by
  obtain ⟨_, hiff, _⟩ := agrees_iff_of_bundle bundle_twoEnums
  refine ⟨bundle_twoEnums, by decide, by decide, fun hagrees => ?_⟩
  have hvalue :=
    (hiff "X" ⟨.member "A" "X", .literal "1"⟩ ⟨.member "B" "X", .literal "2"⟩ (by decide)
      (by decide)).mp hagrees ⟨.member "B" "X", .literal "2"⟩ (by decide) rfl
  revert hvalue
  decide

end Compile
end Xdr
