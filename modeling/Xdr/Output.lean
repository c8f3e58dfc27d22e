/-!
# Output

What a writer has produced, and why it stopped if it did not finish.

## Design Notes

What was written before a failure stays written.
-/

namespace Xdr

/-- What a writer has produced, and why it stopped if it did not finish. -/
structure Output (ε α : Type) where
  content : List α
  failure : Option ε
  deriving DecidableEq, Repr

namespace Output

variable {ε α : Type}

/-- Content without a failure. -/
def wrote (content : List α) : Output ε α :=
  ⟨content, none⟩

/-- A failure without content. -/
def failed (failure : ε) : Output ε α :=
  ⟨[], some failure⟩

/-- Goes on with more output unless there was a failure. -/
def andThen (first second : Output ε α) : Output ε α :=
  match first.failure with
  | some _ => first
  | none => ⟨first.content ++ second.content, second.failure⟩

/-- Some outputs in order, up to the first failure. -/
def sequence : List (Output ε α) → Output ε α
  | [] => wrote []
  | output :: outputs => output.andThen (sequence outputs)

/-- The content of a writer that finished, or its failure. -/
def result (output : Output ε α) : Except ε (List α) :=
  match output.failure with
  | some failure => .error failure
  | none => .ok output.content

end Output
end Xdr
