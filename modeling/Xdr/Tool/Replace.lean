import Xdr.Tool.Basic

/-!
# Replacing characters

The tool that replaces, deletes or squeezes characters of its input by sets
of them.

## Design Notes

A set is an ordered list of characters. Replacing pairs the two sets place
by place, where a pair of classes of letters stands for the change of case,
and the second set goes on with its last character when it is shorter.
Characters that a backslash makes literal never belong to a range, a class
or a repetition.
-/

namespace Xdr.Tool

open Text (Raw)

inductive SetItem where
  | char (c : Char)
  | range (low high : Char)
  | named (name : String)
  | same (c : Char)
  /-- So many times a character; none means as often as is needed. -/
  | repeated (c : Char) (count : Nat)
  deriving DecidableEq, Repr

def replaceUsage : Usage where
  letters := "AcCdst".toList
  longNames :=
    [("complement", 'c'), ("delete", 'd'), ("squeeze-repeats", 's'), ("truncate-set1", 't')]
  anywhere := false

def replaceComplaint (text : String) : Complaint :=
  ⟨Text.raw text, false⟩

def charRange (low high : Nat) : List Char :=
  (List.range (high + 1 - low)).map fun i => Char.ofNat (low + i)

def charClass? (name : String) : Option (List Char) :=
  let digits := charRange 48 57
  let upper := charRange 65 90
  let lower := charRange 97 122
  match name with
  | "alnum" => some (digits ++ upper ++ lower)
  | "alpha" => some (upper ++ lower)
  | "blank" => some ['\t', ' ']
  | "cntrl" => some (charRange 0 31 ++ charRange 127 127)
  | "digit" => some digits
  | "graph" => some (charRange 33 126)
  | "lower" => some lower
  | "print" => some (charRange 32 126)
  | "punct" =>
    some (charRange 33 47 ++ charRange 58 64 ++ charRange 91 96 ++ charRange 123 126)
  | "space" => some (charRange 9 13 ++ [' '])
  | "upper" => some upper
  | "xdigit" => some (digits ++ charRange 65 70 ++ charRange 97 102)
  | _ => none

structure SetChar where
  char : Char
  literal : Bool
  deriving DecidableEq, Repr

def SetChar.is (c : SetChar) (char : Char) : Bool :=
  c.char == char && !c.literal

/-- The character that a letter after a backslash stands for; any other
stands for itself. -/
def escaped (c : Char) : Char :=
  match c with
  | 'a' => '\x07'
  | 'b' => '\x08'
  | 'f' => '\x0c'
  | 'n' => '\n'
  | 'r' => '\r'
  | 't' => '\t'
  | 'v' => '\x0b'
  | _ => c

def isOctal (c : Char) : Bool :=
  '0' ≤ c && c ≤ '7'

/-- The character with up to three octal digits, how many of them it takes,
and a warning if the third does not fit. -/
def octalEscape (digits : List Char) : Char × Nat × List Complaint :=
  let value (cs : List Char) := cs.foldl (fun n c => n * 8 + (c.toNat - 48)) 0
  if value digits < 256 then (Char.ofNat (value digits), digits.length, [])
  else
    let (a, b, c) := (digits.getD 0 '0', digits.getD 1 '0', digits.getD 2 '0')
    (Char.ofNat (value (digits.take 2)), 2,
      [replaceComplaint ("warning: the ambiguous octal escape \\" ++
        String.ofList [a, b, c] ++ " is being\n\tinterpreted as the 2-byte sequence \\0" ++
        String.ofList [a, b] ++ ", " ++ c.toString)])

/-- The characters of a set after its escapes are read, with warnings. Some
characters in front still belong to an escape. -/
def unescape (skip : Nat) : List Char → List SetChar × List Complaint
  | [] => ([], [])
  | c :: cs =>
    match skip with
    | skip + 1 => unescape skip cs
    | 0 =>
      if c != '\x5c' then
        let (rest, warnings) := unescape 0 cs
        (⟨c, false⟩ :: rest, warnings)
      else
        match cs with
        | [] =>
          ([⟨c, false⟩],
            [replaceComplaint
              "warning: an unescaped backslash at end of string is not portable"])
        | d :: _ =>
          if isOctal d then
            let (char, taken, warning) := octalEscape ((cs.take 3).takeWhile isOctal)
            let (rest, warnings) := unescape taken cs
            (⟨char, true⟩ :: rest, warning ++ warnings)
          else
            let (rest, warnings) := unescape 1 cs
            (⟨escaped d, true⟩ :: rest, warnings)

/-- The characters of a name that a mark and a bracket end, and what
follows, if they do. -/
def untilMark (mark : Char) : List SetChar → Option (List SetChar × List SetChar)
  | c :: d :: rest =>
    if c.is mark && d.is ']' then some ([], rest)
    else (untilMark mark (d :: rest)).map fun (name, after) => (c :: name, after)
  | _ => none

def starFollows : List SetChar → Bool
  | star :: rest =>
    star.is '*' &&
      match rest.dropWhile (·.char.isDigit) with
      | c :: _ => c.is ']'
      | [] => false
  | [] => false

def shownSet (cs : List SetChar) : Raw :=
  cs.flatMap fun c => shownChar c.char

def countLimit : Nat := 0xfffffffffffffffe

/-- How often a character is repeated, from the digits in front of the
bracket. -/
def repeatCount? (digits : List Char) : Option Nat :=
  let base := if digits.head? == some '0' then 8 else 10
  if digits.all fun c => c.isDigit && c.toNat - 48 < base then
    let count := digits.foldl (fun n c => n * base + (c.toNat - 48)) 0
    if count ≤ countLimit then some count else none
  else none

/-- A repetition at the beginning, after its bracket: the part of the set
and what follows. -/
def repetition (cs : List SetChar) : Except Complaint (Option (SetItem × List SetChar)) :=
  match cs with
  | c :: star :: rest =>
    let digits := rest.takeWhile fun d => !d.literal && d.char != ']'
    match star.is '*', rest.drop digits.length with
    | true, close :: after =>
      if close.literal then .ok none
      else
        match repeatCount? (digits.map (·.char)) with
        | some count => .ok (some (.repeated c.char count, after))
        | none =>
          .error ⟨Text.raw "invalid repeat count " ++ quoted (shownSet digits) ++
            Text.raw " in [c*n] construct", false⟩
    | _, _ => .ok none
  | _ => .ok none

/-- A class or an equivalence at the beginning, after its bracket: the part
of the set and what follows. -/
def bracketed (cs : List SetChar) : Except Complaint (Option (SetItem × List SetChar)) :=
  match cs with
  | mark :: rest =>
    if !(mark.is ':' || mark.is '=') then repetition cs
    else
      match untilMark mark.char rest with
      | none => repetition cs
      | some ([], _) =>
        if mark.char == ':' then
          .error (replaceComplaint "missing character class name '[::]'")
        else .error (replaceComplaint "missing equivalence class character '[==]'")
      | some (name, after) =>
        if mark.char == ':' then
          let text := String.ofList (name.map (·.char))
          if (charClass? text).isSome then .ok (some (.named text, after))
          else if starFollows rest then repetition cs
          else .error ⟨Text.raw "invalid character class " ++ quoted (shownSet name), false⟩
        else
          match name with
          | [c] => .ok (some (.same c.char, after))
          | _ =>
            if starFollows rest then repetition cs
            else
              .error ⟨shownSet name ++
                Text.raw ": equivalence class operand must be a single character", false⟩
  | [] => .ok none

def rangeItem (low high : Char) : Except Complaint SetItem :=
  if high < low then
    let bound (c : Char) : Raw := if isShown c then [c] else '\x5c' :: octalDigits c
    .error ⟨Text.raw "range-endpoints of '" ++ bound low ++ ['-'] ++ bound high ++
      Text.raw "' are in reverse collating sequence order", false⟩
  else .ok (.range low high)

/-- The parts of a set. Each step reads a character, so their number is
enough. -/
def setItems : Nat → List SetChar → Except Complaint (List SetItem)
  | 0, _ => .ok []
  | steps + 1, cs =>
    match cs with
    | c :: d :: e :: rest => do
      let construct ← if c.is '[' then bracketed (d :: e :: rest) else .ok none
      match construct with
      | some (item, after) => return item :: (← setItems steps after)
      | none =>
        if d.is '-' then return (← rangeItem c.char e.char) :: (← setItems steps rest)
        else return .char c.char :: (← setItems steps (d :: e :: rest))
    | few => return few.map fun c => .char c.char

def readSet (text : Raw) : List Complaint × Except Complaint (List SetItem) :=
  let (cs, warnings) := unescape 0 text
  (warnings, setItems (cs.length + 1) cs)

inductive Case where
  | lower
  | upper
  deriving DecidableEq, Repr

namespace SetItem

/-- The characters of a part, in order. A repetition has at most the given
number of them. -/
def chars (most : Nat) : SetItem → List Char
  | .char c => [c]
  | .range low high => charRange low.toNat high.toNat
  | .named name => (charClass? name).getD []
  | .same c => [c]
  | .repeated c count => List.replicate (min count most) c

def size : SetItem → Nat
  | .repeated _ count => count
  | item => (item.chars 1).length

def isEndless : SetItem → Bool
  | .repeated _ 0 => true
  | _ => false

def case? : SetItem → Option Case
  | .named "lower" => some .lower
  | .named "upper" => some .upper
  | _ => none

def isNamed : SetItem → Bool
  | .named _ => true
  | _ => false

def isSame : SetItem → Bool
  | .same _ => true
  | _ => false

end SetItem

def setSize (set : List SetItem) : Nat :=
  set.foldl (fun total item => total + item.size) 0

def members (set : List SetItem) : List Char :=
  set.flatMap (·.chars 1)

def complementOf (set : List SetItem) : List Char :=
  (charRange 0 255).filter fun c => !(members set).contains c

/-- A place of a set: its character, the case of the class that it belongs
to, whether it begins its part, and how many places of that part follow. -/
structure Slot where
  char : Char
  case? : Option Case
  first : Bool
  left : Nat
  deriving DecidableEq, Repr

def SetItem.slots (most : Nat) (item : SetItem) : List Slot :=
  let cs := item.chars most
  cs.mapIdx fun i c => ⟨c, item.case?, i == 0, cs.length - 1 - i⟩

def slotsOf (most : Nat) (set : List SetItem) : List Slot :=
  set.flatMap (·.slots most)

/-- The pairs of places, where a class of letters in the second set takes
the whole part in both, or nothing if such a class stands beside no other
one. The steps are as many as there are places. -/
def pairUp : Nat → List Slot → List Slot → Option (List (Slot × Slot))
  | 0, _, _ => some []
  | steps + 1, a :: as, b :: bs =>
    if b.case?.isSome then
      if b.first && !(a.first && a.case?.isSome) then none
      else (pairUp steps (as.drop a.left) (bs.drop b.left)).map ((a, b) :: ·)
    else (pairUp steps as bs).map ((a, b) :: ·)
  | _ + 1, [], b :: _ => if b.first && b.case?.isSome then none else some []
  | _ + 1, _, [] => some []

structure ReplaceOptions where
  complement : Bool
  delete : Bool
  squeeze : Bool
  truncate : Bool
  deriving DecidableEq, Repr

def ReplaceOptions.ofLetters (letters : List Char) : ReplaceOptions :=
  ⟨letters.contains 'c' || letters.contains 'C', letters.contains 'd', letters.contains 's',
    letters.contains 't'⟩

/-- The second set in which the part that is repeated as often as is needed
fills it up to a size. -/
def fillTo (size : Nat) (set : List SetItem) : List SetItem :=
  let free := size - setSize set
  set.map fun item =>
    match item with
    | .repeated c 0 => .repeated c free
    | item => item

def lastChar? (set : List SetItem) : Option Char :=
  match set.getLast? with
  | some (.char c) => some c
  | some (.range _ high) => some high
  | some (.same c) => some c
  | some (.repeated c _) => some c
  | _ => none

def changeCase (target : Case) (c : Char) : Char :=
  match target with
  | .lower => c.toLower
  | .upper => c.toUpper

def assignments (pair : Slot × Slot) : List (Char × Char) :=
  match pair.1.case?, pair.2.case? with
  | some .lower, some .upper => (charRange 97 122).map fun c => (c, changeCase .upper c)
  | some .upper, some .lower => (charRange 65 90).map fun c => (c, changeCase .lower c)
  | some .lower, some .lower => (charRange 97 122).map fun c => (c, c)
  | some .upper, some .upper => (charRange 65 90).map fun c => (c, c)
  | _, _ => [(pair.1.char, pair.2.char)]

abbrev Replacements := Array Char

/-- The table in which some characters become others; of two entries for
one, the last holds. -/
def Replacements.of (pairs : List (Char × Char)) : Replacements :=
  pairs.foldl (fun table pair =>
    table.setIfInBounds pair.1.toNat pair.2) (charRange 0 255).toArray

def Replacements.apply (table : Replacements) (c : Char) : Char :=
  table.getD c.toNat c

/-- Keeps one character of every run of the same character of a set. -/
def squeeze (table : Array Bool) : Raw → Raw
  | [] => []
  | c :: cs =>
    if table.getD c.toNat false && cs.head? == some c then squeeze table cs
      else c :: squeeze table cs

def tableOf (cs : List Char) : Array Bool :=
  cs.foldl (fun table c => table.setIfInBounds c.toNat true) (Array.replicate 256 false)

def wrongOperands (options : ReplaceOptions) (operands : List Raw) : Option Complaint :=
  let least := if options.delete = options.squeeze then 2 else 1
  let most := if options.delete && !options.squeeze then 1 else 2
  let last := Tool.quoted (operands.getLastD [])
  if operands.isEmpty then some ⟨Text.raw "missing operand", true⟩
  else if operands.length < least then
    some ⟨Text.raw "missing operand after " ++ last ++ Text.raw (if options.squeeze then
      "\nTwo strings must be given when both deleting and squeezing repeats."
      else "\nTwo strings must be given when translating."), true⟩
  else if most < operands.length then
    some ⟨Text.raw "extra operand " ++ quoted (operands.getD most []) ++
      (if operands.length = 2 then
        Text.raw "\nOnly one string may be given when deleting without squeezing repeats."
        else []), true⟩
  else none

/-- The replacements that two sets stand for, and the second set in its full
length, or a complaint. -/
def replacements (options : ReplaceOptions) (source target : List SetItem) :
    Except Complaint (Replacements × List SetItem) := do
  let size := if options.complement then (complementOf source).length else setSize source
  let target := fillTo size target
  if target.any (·.isSame) then
    throw (replaceComplaint "[=c=] expressions may not appear in string2 when translating")
  if target.any fun item => item.isNamed && item.case?.isNone then
    throw (replaceComplaint
      ("when translating, the only character classes that may appear in\n" ++
        "string2 are 'upper' and 'lower'"))
  let sourceSlots := if options.complement then
      (complementOf source).map fun c => ⟨c, none, true, 0⟩
    else slotsOf size source
  let some pairs := if options.complement then some [] else
      pairUp (sourceSlots.length + 1) sourceSlots (slotsOf size target)
    | throw (replaceComplaint "misaligned [:upper:] and/or [:lower:] construct")
  let cased := pairs.filter fun pair => pair.2.case?.isSome
  let excess (slot : Slot × Slot → Slot) : Nat :=
    cased.foldl (fun total pair => total + (slot pair).left) 0
  let (sourceSize, targetSize) := (size - excess (·.1), setSize target - excess (·.2))
  let full ← if sourceSize ≤ targetSize || options.truncate then .ok target
    else if targetSize = 0 then
      throw (replaceComplaint "when not truncating set1, string2 must be non-empty")
    else
      match lastChar? target with
      | some c => .ok (target ++ [.repeated c (sourceSize - targetSize)])
      | none =>
        throw (replaceComplaint ("when translating with string1 longer than string2,\n" ++
          "the latter string must not end with a character class"))
  if options.complement && source.any (·.isNamed) &&
      !(setSize full = size && (members full).all fun c =>
        (members full).head? == some c) then
    throw (replaceComplaint ("when translating with complemented character classes,\n" ++
      "string2 must map all characters in the domain to one"))
  let targetSlots := slotsOf size full
  let table := if options.complement then
      (sourceSlots.zip targetSlots).map fun pair => (pair.1.char, pair.2.char)
    else
      ((pairUp (sourceSlots.length + 1) sourceSlots targetSlots).getD []).flatMap assignments
  return (.of table, full)

/-- What the tool makes of its input, by the sets that it is given, or its
complaint. -/
def replaceWith (options : ReplaceOptions) (source : List SetItem)
    (target? : Option (List SetItem)) (input : Raw) : Except Complaint Raw := do
  if source.any (·.isEndless) then
    throw (replaceComplaint "the [c*] repeat construct may not appear in string1")
  let chosen := if options.complement then complementOf source else members source
  match target? with
  | none =>
    let table := tableOf chosen
    if options.delete then return input.filter fun c => !table.getD c.toNat false
    else return squeeze table input
  | some target =>
    if 1 < (target.filter (·.isEndless)).length then
      throw (replaceComplaint "only one [c*] repeat construct may appear in string2")
    if options.delete then
      if target.any (·.isEndless) then
        throw (replaceComplaint
          "the [c*] construct may appear in string2 only when translating")
      let table := tableOf chosen
      return squeeze (tableOf (members target)) (input.filter fun c =>
        !table.getD c.toNat false)
    else
      let (table, full) ← replacements options source target
      let replaced := input.map table.apply
      return if options.squeeze then squeeze (tableOf (members full)) replaced else replaced

def replace (called : Raw) (args : List Raw) (input : Raw) : Outcome :=
  match replaceUsage.read args with
  | .error complaint => .complained (complaint.shown called) input
  | .ok (letters, operands) =>
    let options := ReplaceOptions.ofLetters letters
    match wrongOperands options operands with
    | some complaint => .complained (complaint.shown called) input
    | none =>
      let (warnings, source) := readSet (operands.headD [])
      let second := match source, operands.tail with
        | .ok _, operand :: _ => some (readSet operand)
        | _, _ => none
      let warned := (warnings ++ (second.map (·.1)).getD []).flatMap (·.shown called)
      let result := do
        let source ← source
        let target ← match second with
          | some (_, set) => set.map some
          | none => .ok none
        replaceWith options source target input
      match result with
      | .ok output => ⟨[(.errors, warned), (.output, output)], [], .exited 0⟩
      | .error complaint => .complained (warned ++ complaint.shown called) input

end Xdr.Tool
