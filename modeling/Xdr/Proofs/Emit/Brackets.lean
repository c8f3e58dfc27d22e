import Mathlib.Data.List.Basic

/-!
# Balanced brackets

A text in which every bracket is closed by one of its kind, and in which two
pairs of brackets lie side by side or one within the other.

## Main Statements

* `Bracket.nest_frame` — what is open before a text makes no difference to
  it
* `Bracket.nested_of_nest` — a text that leaves the empty stack as it is has
  balanced brackets
* `Bracket.nested_append_closers` — what a text leaves open can be closed
-/

namespace Xdr

open List Option

/-- A kind of bracket. -/
inductive Bracket where
  | round
  | square
  | curly
  deriving DecidableEq, Repr

namespace Bracket

variable {chars : List Char} {stack next : List Bracket} {c : Char}

/-- The opening character. -/
def opening : Bracket → Char
  | .round => '('
  | .square => '['
  | .curly => '\x7b'

/-- The closing character. -/
def closing : Bracket → Char
  | .round => ')'
  | .square => ']'
  | .curly => '\x7d'

/-- Every kind of bracket. -/
def all : List Bracket :=
  [.round, .square, .curly]

/-- The bracket that a character opens. -/
def opened? (c : Char) : Option Bracket :=
  all.find? fun bracket => bracket.opening == c

/-- The bracket that a character closes. -/
def closed? (c : Char) : Option Bracket :=
  all.find? fun bracket => bracket.closing == c

/-- Texts in which brackets are properly nested and balanced. -/
inductive Nested : List Char → Prop where
  | nil : Nested []
  | plain {c : Char} (hopened : opened? c = none) (hclosed : closed? c = none) : Nested [c]
  | pair (bracket : Bracket) {inner} (h : Nested inner) :
      Nested (bracket.opening :: (inner ++ [bracket.closing]))
  | append {front back} (hfront : Nested front) (hback : Nested back) : Nested (front ++ back)

/-- The open brackets after a character, given those before it. -/
def step (stack : List Bracket) (c : Char) : Option (List Bracket) :=
  match opened? c with
  | some bracket => some (bracket :: stack)
  | none =>
    match closed? c with
    | some bracket => if stack.head? = some bracket then some stack.tail else none
    | none => some stack

/-- The open brackets after a text, given those before it. -/
def nest (stack : List Bracket) (chars : List Char) : Option (List Bracket) :=
  chars.foldlM step stack

theorem nest_cons (stack : List Bracket) (c : Char) (chars : List Char) :
    nest stack (c :: chars) = (step stack c).bind fun next => nest next chars :=
  foldlM_cons

theorem nest_append (stack : List Bracket) (front back : List Char) :
    nest stack (front ++ back) = (nest stack front).bind fun next => nest next back :=
  foldlM_append

theorem nest_append_of_eq {front} (h : nest stack front = some next) (back : List Char) :
    nest stack (front ++ back) = nest next back := by
  rw [nest_append, h, bind_some]

theorem opened?_opening (bracket : Bracket) : opened? bracket.opening = some bracket := by
  cases bracket <;> rfl

theorem opened?_closing (bracket : Bracket) : opened? bracket.closing = none := by
  cases bracket <;> rfl

theorem closed?_closing (bracket : Bracket) : closed? bracket.closing = some bracket := by
  cases bracket <;> rfl

theorem opening_of_opened? {bracket} (h : opened? c = some bracket) :
    bracket.opening = c := by
  simpa using find?_some h

theorem closing_of_closed? {bracket} (h : closed? c = some bracket) :
    bracket.closing = c := by
  simpa using find?_some h

theorem step_opening (stack : List Bracket) (bracket : Bracket) :
    step stack bracket.opening = some (bracket :: stack) := by
  rw [step, opened?_opening]

theorem step_closing (stack : List Bracket) (bracket : Bracket) :
    step (bracket :: stack) bracket.closing = some stack := by
  rw [step, opened?_closing, closed?_closing]
  exact if_pos rfl

theorem step_plain (hopened : opened? c = none) (hclosed : closed? c = none)
    (stack : List Bracket) : step stack c = some stack := by
  rw [step, hopened, hclosed]

/-- Characters of a kind that no bracket is of. -/
theorem nest_apart {p : Char → Bool}
    (hp : ∀ bracket : Bracket, p bracket.opening = false ∧ p bracket.closing = false)
    (h : ∀ c ∈ chars, p c = true) (stack : List Bracket) : nest stack chars = some stack := by
  induction chars with
  | nil => rfl
  | cons c chars ih =>
    obtain ⟨hc, hrest⟩ := forall_mem_cons.mp h
    have hopened : opened? c = none := by
      refine find?_eq_none.mpr fun bracket _ heq => ?_
      rw [← beq_iff_eq.mp heq, (hp bracket).1] at hc
      cases hc
    have hclosed : closed? c = none := by
      refine find?_eq_none.mpr fun bracket _ heq => ?_
      rw [← beq_iff_eq.mp heq, (hp bracket).2] at hc
      cases hc
    rw [nest_cons, step_plain hopened hclosed, bind_some, ih hrest]

/-- What a character can do: open a bracket, close the last one, or nothing.
-/
theorem step_cases (h : step stack c = some next) :
    (∃ bracket, c = bracket.opening ∧ next = bracket :: stack) ∨
      (∃ bracket, c = bracket.closing ∧ stack = bracket :: next) ∨
      (opened? c = none ∧ closed? c = none ∧ next = stack) := by
  rw [step] at h
  split at h
  · next bracket hopened =>
    cases h
    exact .inl ⟨bracket, (opening_of_opened? hopened).symm, rfl⟩
  · next hopened =>
    split at h
    · next bracket hclosed =>
      split at h
      · next htop =>
        cases h
        obtain ⟨rest, rfl⟩ := head?_eq_some_iff.mp htop
        exact .inr (.inl ⟨bracket, (closing_of_closed? hclosed).symm, rfl⟩)
      · cases h
    · next hclosed =>
      cases h
      exact .inr (.inr ⟨hopened, hclosed, rfl⟩)

/-- **What is open before a text** makes no difference to it, if it does not
close it. -/
theorem nest_frame (h : nest stack chars = some next) (below : List Bracket) :
    nest (stack ++ below) chars = some (next ++ below) := by
  induction chars generalizing stack with
  | nil =>
    cases h
    rfl
  | cons c chars ih =>
    rw [nest_cons, bind_eq_some_iff] at h
    obtain ⟨after, hstep, hrest⟩ := h
    have hbelow : step (stack ++ below) c = some (after ++ below) := by
      rcases step_cases hstep with ⟨bracket, rfl, rfl⟩ | ⟨bracket, rfl, rfl⟩ |
        ⟨hopened, hclosed, rfl⟩
      · exact step_opening _ _
      · exact step_closing _ _
      · exact step_plain hopened hclosed _
    rw [nest_cons, hbelow, bind_some, ih hrest]

/-- A text that has all its brackets closed leaves any stack as it is. -/
theorem nest_of_balanced (h : nest [] chars = some []) (stack : List Bracket) :
    nest stack chars = some stack :=
  nest_frame h stack

/-! ### The stack and the grammar -/

/-- Texts that close the brackets of a stack one after the other, with
balanced texts around them. -/
inductive Closes : List Bracket → List Char → Prop where
  | done {last} (h : Nested last) : Closes [] last
  | close {bracket stack first rest} (h : Nested first) (hrest : Closes stack rest) :
      Closes (bracket :: stack) (first ++ bracket.closing :: rest)

theorem Closes.prepend {front} (hfront : Nested front) (h : Closes stack chars) :
    Closes stack (front ++ chars) := by
  cases h with
  | done hlast => exact .done (hfront.append hlast)
  | close hfirst hrest =>
    rw [← append_assoc]
    exact .close (hfront.append hfirst) hrest

theorem closes_of_nest (h : nest stack chars = some []) : Closes stack chars := by
  induction chars generalizing stack with
  | nil =>
    cases h
    exact .done .nil
  | cons c chars ih =>
    rw [nest_cons, bind_eq_some_iff] at h
    obtain ⟨next, hstep, hrest⟩ := h
    have hnext := ih hrest
    rcases step_cases hstep with ⟨bracket, rfl, rfl⟩ | ⟨bracket, rfl, rfl⟩ |
      ⟨hopened, hclosed, rfl⟩
    · -- The bracket that is opened here is the first to be closed.
      cases hnext with
      | @close _ _ first rest hfirst hlater =>
        have hpair := hlater.prepend (.pair bracket hfirst)
        rwa [cons_append, append_assoc, singleton_append] at hpair
    · exact .close .nil hnext
    · exact hnext.prepend (.plain hopened hclosed)

/-- **A text that leaves the empty stack as it is** has balanced brackets. -/
theorem nested_of_nest (h : nest [] chars = some []) : Nested chars := by
  cases closes_of_nest h with
  | done hchars => exact hchars

theorem nest_closers (stack : List Bracket) : nest stack (stack.map closing) = some [] := by
  induction stack with
  | nil => rfl
  | cons bracket stack ih => rw [map_cons, nest_cons, step_closing, bind_some, ih]

/-- **What a text leaves open can be closed.** -/
theorem nested_append_closers (h : nest [] chars = some stack) :
    Nested (chars ++ stack.map closing) := by
  apply nested_of_nest
  rw [nest_append_of_eq h, nest_closers]

end Bracket
end Xdr
