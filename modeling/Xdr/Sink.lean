/-!
# Sinks

Destinations for bytes, which may take a part of what they are offered, or
nothing.

## Design Notes

A destination that is offered bytes says how many of them it took from the
front. What it did not take is offered again, so a sink that takes a few
bytes at a time gets all of them.
-/

namespace Xdr

/-- A destination for bytes, with states `σ`. -/
structure Sink (σ : Type) where
  /-- Offers bytes, of which the destination takes some from the front and
  says how many, or fails. -/
  offer : List UInt8 → σ → σ × Option Nat
  /-- Pushes on what was taken, and says whether that succeeded. -/
  flush : σ → σ × Bool

namespace Sink

variable {σ : Type}

/-- Offers bytes until all were taken, and says whether they were. A
destination that takes nothing ends it. -/
def write (sink : Sink σ) (bytes : List UInt8) (state : σ) : σ × Bool :=
  match bytes with
  | [] => (state, true)
  | first :: rest =>
    match sink.offer (first :: rest) state with
    | (next, some (count + 1)) => sink.write (rest.drop count) next
    | (next, _) => (next, false)
termination_by bytes.length

/-- A destination in memory that takes at most `limit` bytes, and then
fails. Its state is what it took, the last byte first. -/
def upTo (limit : Option Nat) : Sink (List UInt8) where
  offer bytes taken :=
    match limit with
    | none => (bytes.reverse ++ taken, some bytes.length)
    | some limit =>
      if taken.length < limit then
        let part := bytes.take (limit - taken.length)
        (part.reverse ++ taken, some part.length)
      else (taken, none)
  flush taken := (taken, true)

/-- A destination in memory that takes everything. -/
def buffer : Sink (List UInt8) :=
  upTo none

end Sink
end Xdr
