import Xdr.Compile
import Xdr.Proofs.Emit.Strokes
import Xdr.Proofs.Sink
import Xdr.Proofs.Source.Characters

/-!
# What reaches a limited sink

An emitter writes many small pieces, and a sink may fail in any of them.
What arrives is nevertheless the front of the text that is printed, cut off
at the limit of the sink, and nothing but the limit decides whether the
error of the sink or that of the emission is reported.

## Main Statements

* `Writing.Delivers.andThen` — one writing after the other
* `Stroke.delivers_write` — strokes deliver what they print
* `Emit.delivers_renderOn` — a bundle delivers its rendered text
* `Compile.delivery_all_or_nothing` — rendering, generation and compilation
  with a limited sink

## Design Notes

`Output.andThen` composes what is delivered as `Writing.andThen` composes
the writing, so the induction over strokes needs only the case of a single
line.
-/

namespace Xdr

open List Text Writing

/-! ### Texts as bytes -/

theorem Text.utf8_append (first second : String) :
    utf8 (first ++ second) = utf8 first ++ utf8 second := by
  rw [Source.utf8_eq_flatMap, Source.utf8_eq_flatMap, Source.utf8_eq_flatMap,
    String.toList_append, flatMap_append]

namespace Doc

theorem text_append (lines more : List String) :
    text (lines ++ more) = text lines ++ text more := by
  rw [text, text, text, map_append, String.join_append]

/-- Printed lines as bytes. -/
def encoded (output : Output EmitError String) : Output EmitError UInt8 :=
  ⟨utf8 (text output.content), output.failure⟩

theorem encoded_andThen (first second : Output EmitError String) :
    encoded (first.andThen second) = (encoded first).andThen (encoded second) := by
  obtain ⟨content, failure⟩ := first
  cases failure with
  | some error => rfl
  | none => simp only [Output.andThen, encoded, text_append, utf8_append]

end Doc

/-! ### Writing in pieces -/

namespace Writing

open Sink

variable {σ : Type} {sink : Sink σ} {taken : σ → List UInt8} {limit : Option Nat}

/-- A writing delivers some output: the content arrives as far as the limit
allows, and the writing ends as the output does, unless there was more than
that. -/
def Delivers (taken : σ → List UInt8) (limit : Option Nat) (writing : Writing σ)
    (output : Output EmitError UInt8) : Prop :=
  ∀ state, fits limit (taken state).length = true →
    taken (writing state).1 = within limit (taken state ++ output.content) ∧
      (writing state).2 =
        bif fits limit (taken state ++ output.content).length then output.failure
          else some .unwritable

theorem delivers_bytes (hsink : sink.Takes taken limit) (content : List UInt8) :
    Delivers taken limit (bytes sink content) (.wrote content) := by
  intro state hstate
  obtain ⟨htaken, hall⟩ := hsink.taken_write content state hstate
  simp only [bytes, Output.wrote, ← hall, ← htaken]
  rcases sink.write content state with ⟨next, _ | _⟩
  · exact ⟨rfl, rfl⟩
  · exact ⟨rfl, rfl⟩

/-- Flushing delivers nothing more. -/
theorem delivers_flush (hsink : sink.Takes taken limit) :
    Delivers taken limit (flush sink) (.wrote []) := by
  intro state hstate
  obtain ⟨next, hflush, htaken⟩ := hsink.flushes state
  simp only [flush, hflush, Output.wrote, append_nil, htaken, within_of_fits hstate, hstate,
    cond_true, and_self]

theorem delivers_stop (error : EmitError) :
    Delivers taken limit (stop error) (.failed error) := by
  intro state hstate
  simp only [stop, Output.failed, append_nil, within_of_fits hstate, hstate,
    cond_true, and_self]

theorem delivers_done : Delivers taken limit done (.wrote []) := by
  intro state hstate
  simp only [done, Output.wrote, append_nil, within_of_fits hstate, hstate,
    cond_true, and_self]

/-- **One writing after the other** delivers the one output after the other.
-/
theorem Delivers.andThen {first second : Writing σ} {front back : Output EmitError UInt8}
    (hfirst : Delivers taken limit first front) (hsecond : Delivers taken limit second back) :
    Delivers taken limit (first.andThen second) (front.andThen back) := by
  intro state hstate
  obtain ⟨htaken, hstop⟩ := hfirst state hstate
  rcases hrun : first state with ⟨next, failure⟩
  obtain ⟨content, error⟩ := front
  simp only [hrun] at htaken hstop
  simp only [Writing.andThen, hrun]
  cases hfits : fits limit (taken state ++ content).length with
  | false =>
    -- The limit is reached in the first part, whatever follows.
    rw [hfits, cond_false] at hstop
    subst hstop
    have hmore : fits limit (taken state ++ (content ++ back.content)).length = false := by
      rw [← Bool.not_eq_true]
      intro hmore
      have hless := fits_of_le hmore (show (taken state ++ content).length ≤ _ by simp)
      rw [hfits] at hless
      cases hless
    cases error with
    | some error =>
      simp only [Output.andThen, hfits, cond_false, and_true]
      exact htaken
    | none =>
      simp only [Output.andThen, hmore, cond_false, and_true]
      rw [htaken, ← append_assoc, within_append_of_not_fits hfits]
  | true =>
    rw [hfits, cond_true] at hstop
    subst hstop
    cases failure with
    | some error =>
      simp only [Output.andThen, hfits, cond_true, and_true]
      exact htaken
    | none =>
      rw [within_of_fits hfits] at htaken
      obtain ⟨htaken', hstop'⟩ := hsecond next (by rw [htaken]; exact hfits)
      rw [htaken, append_assoc] at htaken' hstop'
      exact ⟨htaken', hstop'⟩

/-- What an empty destination gets. -/
theorem Delivers.of_empty {limit writing output}
    (h : Delivers taken (some limit) writing output) {state} (hstate : taken state = []) :
    taken (writing state).1 = output.content.take limit ∧
      (writing state).2 = if limit < output.content.length then some .unwritable
        else output.failure := by
  have hroom : fits (some limit) (taken state).length = true := by
    rw [hstate]
    exact decide_eq_true (Nat.zero_le limit)
  obtain ⟨htaken, hstop⟩ := h state hroom
  rw [hstate, nil_append] at htaken hstop
  refine ⟨htaken, hstop.trans ?_⟩
  rw [fits_some]
  by_cases hlt : limit < output.content.length
  · rw [if_pos hlt, decide_eq_false (Nat.not_le.mpr hlt), cond_false]
  · rw [if_neg hlt, decide_eq_true (Nat.not_lt.mp hlt), cond_true]

/-- Writes a whole text to a sink and flushes it. -/
def whole (sink : Sink σ) (content : String) : Writing σ :=
  (text sink content).andThen (flush sink)

/-- What an empty destination gets of a whole text. -/
theorem whole_of_empty {limit} (hsink : sink.Takes taken (some limit)) (content : String)
    {state} (hstate : taken state = []) :
    taken (whole sink content state).1 = (utf8 content).take limit ∧
      (whole sink content state).2 =
        if limit < (utf8 content).length then some .unwritable else none := by
  have hdelivers := (delivers_bytes hsink (utf8 content)).andThen (delivers_flush hsink)
  simp only [Output.wrote, Output.andThen, append_nil] at hdelivers
  exact hdelivers.of_empty hstate

theorem delivers_line (hsink : sink.Takes taken limit) (level : Nat) (content : String) :
    Delivers taken limit (line sink level content)
      (Doc.encoded (.wrote [Doc.indented level content])) := by
  have hbytes : Doc.encoded (.wrote [Doc.indented level content]) =
      (Output.wrote (utf8 (Doc.indentation level))).andThen
        ((Output.wrote (utf8 content)).andThen (.wrote (utf8 "\n"))) := by
    simp [Doc.encoded, Doc.text, Doc.indented, Output.wrote, Output.andThen, utf8_append]
  rw [hbytes]
  exact (delivers_bytes hsink _).andThen
    ((delivers_bytes hsink _).andThen (delivers_bytes hsink _))

end Writing

/-! ### Strokes -/

namespace Stroke

open Writing Doc

variable {σ : Type} {sink : Sink σ} {taken : σ → List UInt8} {limit : Option Nat}

/-- **Strokes deliver what they print.** -/
theorem delivers_write (hsink : sink.Takes taken limit) (depth : Nat)
    (strokes : List Stroke) :
    Delivers taken limit (write sink depth strokes) (encoded (print depth strokes)) := by
  induction strokes generalizing depth with
  | nil => exact delivers_done
  | cons stroke strokes ih =>
    cases stroke with
    | blank =>
      have hbytes : encoded (.wrote [""]) = .wrote (utf8 "\n") := rfl
      rw [write, print, encoded_andThen, hbytes]
      exact (delivers_bytes hsink _).andThen (ih depth)
    | line text =>
      rw [write, print, encoded_andThen]
      exact (delivers_line hsink depth text).andThen (ih depth)
    | deeper => exact ih (depth + 1)
    | shallower => exact ih (depth - 1)
    | fail error => exact delivers_stop error

end Stroke

/-! ### Bundles -/

namespace Emit

open Sink Writing

variable {σ : Type} {sink : Sink σ} {taken : σ → List UInt8} {limit : Option Nat}

/-- The rendered text of a bundle as bytes. -/
def rendered (options : Options) (bundle : Bundle) : Output EmitError UInt8 :=
  ⟨utf8 (render options bundle).1, (render options bundle).2⟩

theorem content_rendered (options : Options) (bundle : Bundle) :
    (rendered options bundle).content = utf8 (render options bundle).1 := by
  rw [rendered]

theorem failure_rendered (options : Options) (bundle : Bundle) :
    (rendered options bundle).failure = (render options bundle).2 := by
  rw [rendered]

/-- **A bundle delivers its rendered text.** -/
theorem delivers_renderOn (hsink : sink.Takes taken limit) (options : Options)
    (bundle : Bundle) :
    Delivers taken limit (renderOn sink options bundle) (rendered options bundle) := by
  have hencoded : rendered options bundle =
      Doc.encoded (Stroke.print 0 (moduleStrokes options bundle)) := by
    rw [rendered, render, Doc.encoded]
  rw [hencoded, renderOn]
  exact Stroke.delivers_write hsink 0 (moduleStrokes options bundle)

/-- A buffer takes the whole rendered text. -/
theorem renderOn_buffer (options : Options) (bundle : Bundle) :
    renderOn .buffer options bundle [] =
      ((utf8 (render options bundle).1).reverse, (render options bundle).2) := by
  obtain ⟨htaken, hstop⟩ := delivers_renderOn (takes_upTo none) options bundle [] rfl
  rw [content_rendered, reverse_nil, nil_append, within] at htaken
  refine Prod.ext ?_ hstop
  rw [← reverse_inj, reverse_reverse]
  exact htaken

theorem renderTo_none (options : Options) (bundle : Bundle) :
    renderTo none options bundle = rendered options bundle := by
  have hbuffer := renderOn_buffer options bundle
  rw [Sink.buffer] at hbuffer
  simp only [renderTo, collected, hbuffer, rendered, reverse_reverse]

/-- Generation hands out the whole text of a bundle, -/
theorem generateOn_of_ok (sink : Sink σ) {options bundle text}
    (h : generate options bundle = .ok text) :
    generateOn sink options bundle = whole sink text := by
  obtain ⟨rfl, hnone⟩ := generate_eq_ok.mp h
  simp only [generateOn, renderOn_buffer, hnone, reverse_reverse]
  rfl

/-- and nothing if it has none. -/
theorem generateOn_of_error (sink : Sink σ) {options bundle error}
    (h : generate options bundle = .error error) :
    generateOn sink options bundle = .stop error := by
  simp only [generateOn, renderOn_buffer, generate_eq_error.mp h]

end Emit

/-! ### Compilation -/

namespace Compile

open Sink Writing

variable {σ : Type} {sink : Sink σ} {taken : σ → List UInt8} {options : Options}
    {name text : String}

theorem code_of_bundle {found} (h : bundle options name text = .ok found) :
    code options name text = (Emit.generate options.emit found).mapError .emission := by
  rw [code, h]
  rfl

/-- The code of a text is written as a whole, and a text without code leaves
a sink as it was. -/
theorem codeOn_eq (sink : Sink σ) (state : σ) :
    codeOn sink options name text state =
      match code options name text with
      | .ok result => ((whole sink result state).1, (whole sink result state).2.map .emission)
      | .error failure => (state, some failure) := by
  rw [codeOn]
  cases hbundle : bundle options name text with
  | error rejection =>
    rw [code, hbundle]
    rfl
  | ok found =>
    rw [code_of_bundle hbundle]
    cases hgenerate : Emit.generate options.emit found with
    | error error =>
      simp only [Emit.generateOn_of_error sink hgenerate, stop, Option.map_some,
        Except.mapError]
    | ok result => simp only [Emit.generateOn_of_ok sink hgenerate, Except.mapError]

theorem codeOn_of_error (sink : Sink σ) {failure}
    (h : code options name text = .error failure) (state : σ) :
    codeOn sink options name text state = (state, some failure) := by
  rw [codeOn_eq, h]

theorem codeOn_of_ok (sink : Sink σ) {result} (h : code options name text = .ok result)
    (state : σ) :
    codeOn sink options name text state =
      ((whole sink result state).1, (whole sink result state).2.map .emission) := by
  rw [codeOn_eq, h]

/-- **All or nothing.**  For every sink that takes `limit` bytes and then
fails, in whatever portions:

* generation fails with the error of the rendering and leaves the sink as it
  was, or delivers the front of the rendered text, and fails only if that is
  longer than the limit;
* rendering delivers the front of what a buffer takes, and ends as it does
  there unless that is longer than the limit;
* compilation leaves the sink as it was if the text is rejected or its
  bundle has no emitted form, and delivers the front of the code otherwise. -/
theorem delivery_all_or_nothing {limit : Nat}
    (hsink : sink.Takes taken (some limit)) {state : σ}
    (hstate : taken state = []) (options : Emit.Options) (bundle : Bundle)
    (compileOptions : Options) (name text : String) :
    (∀ error, (Emit.renderTo none options bundle).failure = some error →
      Emit.generateOn sink options bundle state = (state, some error)) ∧
    ((Emit.renderTo none options bundle).failure = none →
      taken (Emit.generateOn sink options bundle state).1 =
          (Emit.renderTo none options bundle).content.take limit ∧
        (Emit.generateOn sink options bundle state).2 =
          if limit < (Emit.renderTo none options bundle).content.length then
            some .unwritable else none) ∧
    (taken (Emit.renderOn sink options bundle state).1 =
        (Emit.renderTo none options bundle).content.take limit ∧
      (Emit.renderOn sink options bundle state).2 =
        if limit < (Emit.renderTo none options bundle).content.length then some .unwritable
        else (Emit.renderTo none options bundle).failure) ∧
    (∀ failure, code compileOptions name text = .error failure →
      codeOn sink compileOptions name text state = (state, some failure)) ∧
    (∀ result, code compileOptions name text = .ok result →
      taken (codeOn sink compileOptions name text state).1 = (Text.utf8 result).take limit ∧
        (codeOn sink compileOptions name text state).2 =
          if limit < (Text.utf8 result).length then some (.emission .unwritable)
            else none) := by
  rw [Emit.renderTo_none]
  refine ⟨?_, ?_, (Emit.delivers_renderOn hsink options bundle).of_empty hstate, ?_, ?_⟩
  · intro error herror
    rw [Emit.failure_rendered] at herror
    rw [Emit.generateOn_of_error sink (Emit.generate_eq_error.mpr herror)]
    rfl
  · intro hnone
    rw [Emit.failure_rendered] at hnone
    rw [Emit.generateOn_of_ok sink (Emit.generate_eq_ok.mpr ⟨rfl, hnone⟩),
      Emit.content_rendered]
    exact whole_of_empty hsink _ hstate
  · intro failure hfailure
    exact codeOn_of_error sink hfailure state
  · intro result hresult
    obtain ⟨htaken, hstop⟩ := whole_of_empty hsink result hstate
    rw [codeOn_of_ok sink hresult state]
    refine ⟨htaken, ?_⟩
    simp only [hstop]
    split <;> rfl

/-- A name for a type that is not declared. -/
def missingType : Bundle :=
  ⟨[], [], [], [], [⟨"b", .named "a", .plain⟩], []⟩

theorem bundle_missingType :
    bundle ⟨[], .standard⟩ "test.x" "typedef a b;" = .ok missingType :=
  eq_ok_of_toOption (by decide +kernel)

/-- A sink with room for five bytes gets the front of the head line from a
rendering, and nothing from a generation or a compilation, which know of the
missing type first. -/
theorem delivery_all_or_nothing_missingType :
    Emit.generateOn (.upTo (some 5)) .standard missingType [] =
      ([], some (.unknownType "a" "b")) ∧
      (Emit.renderOn (.upTo (some 5)) .standard missingType []).1.reverse =
        Text.utf8 "// @g" ∧
      (Emit.renderOn (.upTo (some 5)) .standard missingType []).2 = some .unwritable ∧
      codeOn (.upTo (some 5)) ⟨[], .standard⟩ "test.x" "typedef a b;" [] =
        ([], some (.emission (.unknownType "a" "b"))) := by
  have hrender : (Emit.render .standard missingType).2 = some (.unknownType "a" "b") := by
    decide
  have hfailure :
    (Emit.renderTo none .standard missingType).failure = some (.unknownType "a" "b") := by
    rw [Emit.renderTo_none, Emit.failure_rendered]
    exact hrender
  have hfront :
    (Emit.renderTo none .standard missingType).content.take 5 = Text.utf8 "// @g" := by
    rw [Emit.renderTo_none]
    decide
  have hlonger : 5 < (Emit.renderTo none .standard missingType).content.length := by
    rw [Emit.renderTo_none]
    decide
  obtain ⟨hgenerate, -, ⟨htaken, hstop⟩, hcode, -⟩ :=
    delivery_all_or_nothing (Sink.takes_upTo (some 5))
    (rfl : reverse [] = []) .standard missingType ⟨[], .standard⟩ "test.x" "typedef a b;"
  refine ⟨hgenerate _ hfailure, htaken.trans hfront, ?_, hcode _ ?_⟩
  · rw [hstop, if_pos hlonger]
  · rw [code_of_bundle bundle_missingType, Emit.generate_eq_error.mpr hrender]
    rfl

end Compile
end Xdr
