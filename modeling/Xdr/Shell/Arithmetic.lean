import Xdr.Text.Numeral

/-!
# Arithmetic

Expressions over whole numbers of 64 bits, with variables that can be
assigned.
-/

namespace Xdr.Shell

open Text (Raw readNatural saturate)

def wrap (n : Int) : Int :=
  Int.bmod n 0x10000000000000000

inductive Operation where
  | add
  | sub
  | mul
  | div
  | rem
  | shiftLeft
  | shiftRight
  | bitAnd
  | bitOr
  | bitXor
  | equal
  | unequal
  | less
  | lessEqual
  | greater
  | greaterEqual
  deriving DecidableEq, Repr

inductive Expr where
  | number (n : Int)
  | var (name : Raw)
  | negative (e : Expr)
  | isZero (e : Expr)
  | complement (e : Expr)
  | apply (operation : Operation) (left right : Expr)
  | both (left right : Expr)
  | either (left right : Expr)
  | choice (condition yes no : Expr)
  | assign (name : Raw) (operation : Option Operation) (value : Expr)
  /-- Something that is missing. -/
  | fault (reason : String)
  /-- Something that is missing after an expression. -/
  | faultAfter (e : Expr) (reason : String)
  deriving DecidableEq, Repr

namespace Operation

def apply (operation : Operation) (a b : Int) : Option Int :=
  let truth (p : Bool) : Option Int := some (if p then 1 else 0)
  let bits (n : Int) : Nat := (n % 0x10000000000000000).toNat
  match operation with
  | .add => some (wrap (a + b))
  | .sub => some (wrap (a - b))
  | .mul => some (wrap (a * b))
  | .div => if b = 0 then none else some (wrap (a.tdiv b))
  | .rem => if b = 0 then none else some (wrap (a.tmod b))
  | .shiftLeft => some (wrap (a * (Nat.pow 2 (bits b % 64) : Nat)))
  | .shiftRight => some (a / (Nat.pow 2 (bits b % 64) : Nat))
  | .bitAnd => some (wrap (bits a &&& bits b : Nat))
  | .bitOr => some (wrap (bits a ||| bits b : Nat))
  | .bitXor => some (wrap (bits a ^^^ bits b : Nat))
  | .equal => truth (a == b)
  | .unequal => truth (a != b)
  | .less => truth (a < b)
  | .lessEqual => truth (a ≤ b)
  | .greater => truth (b < a)
  | .greaterEqual => truth (b ≤ a)

end Operation

namespace Expr

inductive Token where
  | number (n : Int)
  | ident (name : Raw)
  | mark (text : String)
  /-- Anything else, which ends the expression. -/
  | stray
  deriving DecidableEq, Repr

/-- The marks of an expression, longer ones before those that they begin
with. -/
def marks : List String :=
  ["<<=", ">>=", "||", "&&", "|=", "^=", "&=", "==", "!=", "<=", ">=", "<<", ">>", "+=", "-=",
    "*=", "/=", "%=", "|", "^", "&", "=", "<", ">", "+", "-", "*", "/", "%", "!", "~",
    "(", ")", "?", ":"]

/-- The tokens of a text. Each step reads a character, so their number is
enough. -/
def tokens : Nat → Raw → List Token
  | 0, _ => []
  | _ + 1, [] => []
  | steps + 1, c :: cs =>
    if c == ' ' || c == '\t' || c == '\n' then tokens steps cs
    else if c.isDigit then
      match readNatural (c :: cs) with
      | some (n, rest) => .number (saturate n) :: tokens steps rest
      | none => [.stray]
    else if c.isAlpha || c == '_' then
      let name := (c :: cs).takeWhile fun d => d.isAlphanum || d == '_'
      .ident name :: tokens steps ((c :: cs).drop name.length)
    else
      match marks.find? fun mark => mark.toList.isPrefixOf (c :: cs) with
      | some mark => .mark mark :: tokens steps ((c :: cs).drop mark.length)
      | none => [.stray]

def binary? (mark : String) : Option (Operation × Nat) :=
  match mark with
  | "*" => some (.mul, 7)
  | "/" => some (.div, 7)
  | "%" => some (.rem, 7)
  | "+" => some (.add, 6)
  | "-" => some (.sub, 6)
  | "<<" => some (.shiftLeft, 5)
  | ">>" => some (.shiftRight, 5)
  | "<" => some (.less, 4)
  | "<=" => some (.lessEqual, 4)
  | ">" => some (.greater, 4)
  | ">=" => some (.greaterEqual, 4)
  | "==" => some (.equal, 3)
  | "!=" => some (.unequal, 3)
  | "&" => some (.bitAnd, 2)
  | "^" => some (.bitXor, 1)
  | "|" => some (.bitOr, 0)
  | _ => none

def assignment? (mark : String) : Option (Option Operation) :=
  match mark with
  | "=" => some none
  | "+=" => some (some .add)
  | "-=" => some (some .sub)
  | "*=" => some (some .mul)
  | "/=" => some (some .div)
  | "%=" => some (some .rem)
  | "<<=" => some (some .shiftLeft)
  | ">>=" => some (some .shiftRight)
  | "&=" => some (some .bitAnd)
  | "^=" => some (some .bitXor)
  | "|=" => some (some .bitOr)
  | _ => none

abbrev Result := Expr × List Token

/-- The result where something is missing, after which nothing more is read.
-/
def missing (reason : String) : Result :=
  (.fault reason, [])

def missingAfter (e : Expr) (reason : String) : Result :=
  (.faultAfter e reason, [])

mutual

/-- A number, a name, an expression in brackets, or one of these after a
sign. -/
def primary : Nat → List Token → Result
  | 0, _ => missing "expecting primary"
  | steps + 1, tokens =>
    match tokens with
    | .number n :: rest => (.number n, rest)
    | .ident name :: rest => (.var name, rest)
    | .mark "(" :: rest =>
      match full steps rest with
      | (e, .mark ")" :: rest) => (e, rest)
      | (e, _) => missingAfter e "expecting ')'"
    | .mark "+" :: rest => primary steps rest
    | .mark "-" :: rest =>
      let (e, rest) := primary steps rest
      (.negative e, rest)
    | .mark "!" :: rest =>
      let (e, rest) := primary steps rest
      (.isZero e, rest)
    | .mark "~" :: rest =>
      let (e, rest) := primary steps rest
      (.complement e, rest)
    | _ => missing "expecting primary"

/-- Operations that bind at least so tightly, after their first operand. -/
def operations : Nat → Nat → Expr → List Token → Result
  | 0, _, left, _ => missingAfter left "expecting primary"
  | steps + 1, level, left, tokens =>
    match tokens with
    | .mark mark :: rest =>
      match binary? mark with
      | some (operation, binding) =>
        if binding < level then (left, tokens)
        else
          let (first, rest) := primary steps rest
          let (right, rest) := operations steps (binding + 1) first rest
          operations steps level (.apply operation left right) rest
      | none => (left, tokens)
    | _ => (left, tokens)

def conjunction : Nat → List Token → Result
  | 0, _ => missing "expecting primary"
  | steps + 1, tokens =>
    let (first, rest) := primary steps tokens
    let (left, rest) := operations steps 0 first rest
    match rest with
    | .mark "&&" :: rest =>
      let (right, rest) := conjunction steps rest
      (.both left right, rest)
    | _ => (left, rest)

def disjunction : Nat → List Token → Result
  | 0, _ => missing "expecting primary"
  | steps + 1, tokens =>
    let (left, rest) := conjunction steps tokens
    match rest with
    | .mark "||" :: rest =>
      let (right, rest) := disjunction steps rest
      (.either left right, rest)
    | _ => (left, rest)

def conditional : Nat → List Token → Result
  | 0, _ => missing "expecting primary"
  | steps + 1, tokens =>
    let (condition, rest) := disjunction steps tokens
    match rest with
    | .mark "?" :: rest =>
      match full steps rest with
      | (yes, .mark ":" :: rest) =>
        let (no, rest) := conditional steps rest
        (.choice condition yes no, rest)
      | (yes, _) => 
        let stopped := Expr.faultAfter yes "expecting ':'"
        (.choice condition stopped stopped, [])
    | _ => (condition, rest)

def full : Nat → List Token → Result
  | 0, _ => missing "expecting primary"
  | steps + 1, tokens =>
    match tokens with
    | .ident name :: .mark mark :: rest =>
      match assignment? mark with
      | some operation =>
        let (value, rest) := full steps rest
        (.assign name operation value, rest)
      | none => conditional steps tokens
    | _ => conditional steps tokens

end

/-- An expression from its text. What is missing shows when the expression
is evaluated up to there. -/
def parse (text : Raw) : Expr :=
  let tokens := tokens (text.length + 1) text
  match full (10 * tokens.length + 10) tokens with
  | (e, []) => e
  | (e, _) => .faultAfter e "expecting EOF"

/-- The first thing that is missing in an expression, also where it is not
evaluated. -/
def fault? : Expr → Option String
  | .number _ => none
  | .var _ => none
  | .negative e => e.fault?
  | .isZero e => e.fault?
  | .complement e => e.fault?
  | .apply _ left right => left.fault? <|> right.fault?
  | .both left right => left.fault? <|> right.fault?
  | .either left right => left.fault? <|> right.fault?
  | .choice condition yes no => condition.fault? <|> yes.fault? <|> no.fault?
  | .assign _ _ e => e.fault?
  | .fault reason => some reason
  | .faultAfter e reason => e.fault? <|> some reason

variable {m : Type → Type} [Monad m]

def skip (refuse : String → m Int) (e : Expr) : m Unit := do
  match e.fault? with
  | some reason => let _ ← refuse reason
  | none => return

/-- The value of an expression, where variables are looked up and assigned
by the given actions, and the last one tells what is wrong. -/
def value (lookup : Raw → m Int) (store : Raw → Int → m Unit)
    (refuse : String → m Int) : Expr → m Int
  | .number n => return n
  | .var name => lookup name
  | .negative e => do return wrap (-(← value lookup store refuse e))
  | .isZero e => do return if (← value lookup store refuse e) = 0 then 1 else 0
  | .complement e => do return -(← value lookup store refuse e) - 1
  | .apply operation left right => do
    let a ← value lookup store refuse left
    let b ← value lookup store refuse right
    match operation.apply a b with
    | some result => return result
    | none => refuse "division by zero"
  | .both left right => do
    if (← value lookup store refuse left) = 0 then
      skip refuse right
      return 0
    else return if (← value lookup store refuse right) = 0 then 0 else 1
  | .either left right => do
    if (← value lookup store refuse left) ≠ 0 then
      skip refuse right
      return 1
    else return if (← value lookup store refuse right) = 0 then 0 else 1
  | .choice condition yes no => do
    if (← value lookup store refuse condition) ≠ 0 then
      let result ← value lookup store refuse yes
      skip refuse no
      return result
    else
      skip refuse yes
      value lookup store refuse no
  | .assign name operation e => do
    let result ← match operation with
      | none => value lookup store refuse e
      | some operation => do
        let b ← value lookup store refuse e
        let a ← lookup name
        match operation.apply a b with
        | some result => pure result
        | none => refuse "division by zero"
    store name result
    return result
  | .fault reason => refuse reason
  | .faultAfter e reason => do
    let _ ← value lookup store refuse e
    refuse reason

end Expr
end Xdr.Shell
