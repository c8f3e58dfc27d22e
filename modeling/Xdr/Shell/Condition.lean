import Xdr.Shell.State
import Xdr.Text.Numeral

/-!
# Conditions

Conditions on words and files, as commands write them.

## Design Notes

A word that looks like an operator is an operand where no operator can
stand. What follows it decides, so up to three words are looked at. A list
of words always begins with the one that is current.
-/

namespace Xdr.Shell

open Text (Raw)

inductive Connective where
  | operand
  | unary (letter : Char)
  | binary (text : String)
  | negation
  | conjunction
  | disjunction
  | opening
  | closing
  /-- There is no word. -/
  | missing
  deriving DecidableEq, Repr

def unaryLetters : Raw :=
  "rwxefdcbpugkstznhOGLS".toList

def binaryNames : List String :=
  ["=", "!=", "<", ">", "-eq", "-ne", "-ge", "-gt", "-le", "-lt", "-nt", "-ot", "-ef"]

def connective? (word : Raw) : Option Connective :=
  match word with
  | ['!'] => some .negation
  | ['('] => some .opening
  | [')'] => some .closing
  | ['-', 'a'] => some .conjunction
  | ['-', 'o'] => some .disjunction
  | _ =>
    let text := String.ofList word
    if binaryNames.contains text then some (.binary text)
    else
      match word with
      | ['-', letter] => if unaryLetters.contains letter then some (.unary letter) else none
      | _ => none

def isBinary (word : Raw) : Bool :=
  match connective? word with
  | some (.binary _) => true
  | _ => false

def Connective.of : List Raw → Connective
  | [] => .missing
  | word :: rest =>
    match connective? word with
    | some (.unary letter) =>
      match rest with
      | [] => .operand
      | [_] => .unary letter
      | next :: _ => if isBinary next then .operand else .unary letter
    | some .opening => if rest.isEmpty then .operand else .opening
    | some connective => connective
    | none => .operand

section

variable {m : Type → Type} [Monad m]

def isDevice (path : String) : Bool :=
  match (Path.ofString path).fromRoot.bind Files.systemNode? with
  | some (.device _) => true
  | _ => false

def isProgram (path : String) : Bool :=
  (Tool.programAt? (.ofString path)).isSome

def fileTest (letter : Char) (name : Raw) : Run m Bool := do
  let path := pathOf name
  let found ← onHost fun host => host.read path
  let (exists_, directory, size) := match found with
    | .ok bytes => (true, false, bytes.length)
    | .error .isDirectory => (true, true, 1)
    | .error .denied => (true, false, 1)
    | .error _ => (false, false, 0)
  match letter with
  | 'e' | 'r' | 'w' | 'O' | 'G' => return exists_
  | 'f' => return exists_ && !directory && !isDevice path
  | 'd' => return directory
  | 's' => return exists_ && 0 < size
  | 'x' => return directory || isProgram path
  | 'c' => return exists_ && isDevice path
  | _ => return false

def decimalOf (word : Raw) : Run m Int :=
  match Text.wholeDecimal? word with
  | some n => return n
  | none => badNumber word

def compareWords (name : String) (left right : Raw) : Run m Bool := do
  let numbers (test : Int → Int → Bool) : Run m Bool := do
    let a ← decimalOf left
    let b ← decimalOf right
    return test a b
  match name with
  | "=" => return left == right
  | "!=" => return left != right
  | "<" => return !Text.notAfter right left
  | ">" => return !Text.notAfter left right
  | "-eq" => numbers (· == ·)
  | "-ne" => numbers (· != ·)
  | "-ge" => numbers (fun a b => b ≤ a)
  | "-gt" => numbers (fun a b => b < a)
  | "-le" => numbers (fun a b => a ≤ b)
  | "-lt" => numbers (fun a b => a < b)
  | "-ef" => return left == right
  | _ => return false

def lacksOperand {α : Type} (operator : Raw) : Run m α :=
  fail (operator ++ ": argument expected".toList)

mutual

/-- Conditions of which one has to hold, given what the first word is; and
the words from the last one on that belongs to them. -/
def anyOf : Nat → Connective → List Raw → Run m (Bool × List Raw)
  | 0, _, words => return (false, words)
  | steps + 1, first, words => do
    let (holds, words) ← allOf steps first words
    if Connective.of words.tail == .disjunction then
      let rest := words.drop 2
      let (other, words) ← anyOf steps (.of rest) rest
      return (holds || other, words)
    else return (holds, words)

def allOf : Nat → Connective → List Raw → Run m (Bool × List Raw)
  | 0, _, words => return (false, words)
  | steps + 1, first, words => do
    let (holds, words) ← negatable steps first words
    if Connective.of words.tail == .conjunction then
      let rest := words.drop 2
      let (other, words) ← allOf steps (.of rest) rest
      return (holds && other, words)
    else return (holds, words)

def negatable : Nat → Connective → List Raw → Run m (Bool × List Raw)
  | 0, _, words => return (false, words)
  | steps + 1, first, words => do
    if first == .negation then
      let next := Connective.of words.tail
      let (holds, words) ← negatable steps next (if next == .missing then words
        else words.tail)
      return (!holds, words)
    else simple steps first words

def simple : Nat → Connective → List Raw → Run m (Bool × List Raw)
  | 0, _, words => return (false, words)
  | steps + 1, first, words => do
    match first, words with
    | .missing, _ => return (false, words)
    | _, [] => return (false, words)
    | .opening, _ :: inner =>
      if Connective.of inner == .closing then return (false, inner)
      else
        let (holds, words) ← anyOf steps (.of inner) inner
        if Connective.of words.tail == .closing then return (holds, words.tail)
        else fail "closing paren expected".toList
    | .unary letter, operator :: rest =>
      match rest with
      | [] => lacksOperand operator
      | word :: _ =>
        match letter with
        | 'z' => return (word.isEmpty, rest)
        | 'n' => return (!word.isEmpty, rest)
        | 't' =>
          let _ ← decimalOf word
          return (false, rest)
        | letter => return (← fileTest letter word, rest)
    | _, left :: rest =>
      match Connective.of rest, rest with
      | .binary name, operator :: operands =>
        match operands with
        | [] => lacksOperand operator
        | right :: _ => return (← compareWords name left right, operands)
      | _, _ => return (!left.isEmpty, words)

end

/-- Whether the condition that some words are holds, with the given start. -/
def conditionFrom (first : Connective) (words : List Raw) : Run m Bool := do
  let (holds, rest) ← anyOf (6 * words.length + 6) first words
  match rest with
  | word :: _ :: _ => fail (if word.isEmpty then "unexpected operator".toList
      else word ++ ": unexpected operator".toList)
  | _ => return holds

/-- Whether the condition that some words are holds. Up to four words have
rules of their own. -/
def condition : Nat → List Raw → Run m Bool
  | 0, _ => return false
  | _ + 1, [] => return false
  | steps + 1, words => do
    let start := conditionFrom (.of words) words
    let bracketed : Run m Bool :=
      match words with
      | ['('] :: rest =>
        if rest.getLast? == some [')'] then conditionFrom (.of rest.dropLast) rest.dropLast
          else start
      | ['!'] :: rest => return !(← condition steps rest)
      | _ => start
    match words with
    | [_, operator, _] =>
      if isBinary operator then conditionFrom .operand words else bracketed
    | [_, _, _, _] => bracketed
    | _ => start

end

end Xdr.Shell
