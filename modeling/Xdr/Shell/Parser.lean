import Xdr.Shell.Script

/-!
# Reading scripts

From the text of a script to its commands, line by line.

## Design Notes

A word that stands where a command may begin is looked up among the
keywords, unless a part of it is quoted. The rules refer to each other
through a record of rules, so that each of them is a definition of its own;
the record is closed by a count of how deeply commands may be nested, of
which the length of the text is enough.

A group that is only a subshell shares its redirections with it, so those of
the group replace those of the subshell.
-/

namespace Xdr.Shell

open Text (Raw)

inductive Token where
  | endOfFile
  | newline
  | operator (text : String)
  | redirection (fd : Option Nat) (operator : String)
  | word (parts : List Part)
  | keyword (text : String)

structure Awaited where
  number : Nat
  delimiter : Raw
  /-- Whether nothing in it is expanded. -/
  literal : Bool
  /-- Whether tabs at the beginning of lines are left out. -/
  indented : Bool

structure Cursor where
  rest : Raw
  line : Nat
  /-- A token that was read and put back. -/
  pushed : Option Token
  awaited : List Awaited
  documents : List (List Part)

structure SyntaxFault where
  line : Nat
  message : String
  deriving DecidableEq, Repr

abbrev Parse := StateT Cursor (Except SyntaxFault)

def fault {α : Type} (message : String) : Parse α := do
  throw ⟨(← get).line, message⟩

/-- Repeats a step until it gives a result, at most so many times as given. -/
def iterate {α β : Type} (step : α → Parse (α ⊕ β)) : Nat → α → Parse β
  | 0, _ => fault "too long"
  | limit + 1, a => do
    match ← step a with
    | .inl next => iterate step limit next
    | .inr result => return result

/-- Repeats a step that reads something each time until it gives a result. -/
def repeatedly {α β : Type} (step : α → Parse (α ⊕ β)) (start : α) : Parse β := do
  iterate step ((← get).rest.length + 4) start

def peek : Parse (Option Char) :=
  return (← get).rest.head?

def advance : Parse Unit :=
  modify fun cursor =>
    match cursor.rest with
    | '\n' :: rest => { cursor with rest := rest, line := cursor.line + 1 }
    | _ :: rest => { cursor with rest := rest }
    | [] => cursor

def takeWhile (kind : Char → Bool) : Parse Raw := do
  let cursor ← get
  let taken := cursor.rest.takeWhile kind
  set { cursor with
    rest := cursor.rest.drop taken.length
    line := cursor.line + taken.count '\n' }
  return taken

def isNameStart (c : Char) : Bool :=
  c.isAlpha || c == '_'

def isNameChar (c : Char) : Bool :=
  c.isAlphanum || c == '_'

def isName : Raw → Bool
  | [] => false
  | c :: cs => isNameStart c && cs.all isNameChar

def isSpecialParam (c : Char) : Bool :=
  "@*#?$!-".toList.contains c

def isMeta (c : Char) : Bool :=
  " \t\n&|;<>()".toList.contains c

inductive Place where
  | word
  | quotes
  | braces (quoted : Bool)
  /-- A number, inside so many brackets. -/
  | number (depth : Nat)
  | document
  deriving DecidableEq, Repr

def Place.isQuoted : Place → Bool
  | .word => false
  | .braces quoted => quoted
  | _ => true

/-- Parts of a word that is being read, the last one first, with the
characters of a text in reverse. -/
abbrev Reversed := List Part

def Reversed.push (parts : Reversed) (c : Char) (quoted : Bool) : Reversed :=
  match parts with
  | .text cs same :: rest =>
    if same == quoted then .text (c :: cs) quoted :: rest else .text [c] quoted :: parts
  | _ => .text [c] quoted :: parts

def Reversed.pushQuoted (parts : Reversed) (cs : Raw) : Reversed :=
  if cs.isEmpty then .text [] true :: parts
    else cs.foldl (fun parts c => parts.push c true) parts

def Reversed.finish (parts : Reversed) : List Part :=
  (parts.map fun
    | .text cs quoted => .text cs.reverse quoted
    | part => part).reverse

def Reversed.ofParts (parts : List Part) : Reversed :=
  (parts.map fun
    | .text cs quoted => .text cs.reverse quoted
    | part => part).reverse

/-- The rules that refer to each other: the parts of a word, one command,
and a list of commands, which may be a line or may be empty. -/
structure Grammar where
  parts : Place → Parse (List Part)
  command : Parse Command
  list : Bool → Bool → Parse (List Command)

def plainText? : List Part → Option Raw
  | [.text cs false] => some cs
  | _ => none

def keywords : List String :=
  ["!", "case", "do", "done", "elif", "else", "esac", "fi", "for", "if", "in", "then",
    "until", "while", "\x7b", "\x7d"]

def Token.name : Token → String
  | .endOfFile => "end of file"
  | .newline => "newline"
  | .operator text => s!"\"{text}\""
  | .redirection .. => "redirection"
  | .word _ => "word"
  | .keyword text => s!"\"{text}\""

def unexpected {α : Type} (token : Token) (wanted : Option String) : Parse α :=
  match wanted with
  | some wanted => fault s!"Syntax error: {token.name} unexpected (expecting {wanted})"
  | none => fault s!"Syntax error: {token.name} unexpected"

section Words

variable (grammar : Grammar)

def singleQuoted : Parse Raw := do
  let cs ← takeWhile (· != '\x27')
  match ← peek with
  | none => fault "Syntax error: Unterminated quoted string"
  | some _ => advance; return cs

/-- The text between backquotes after the first of them, without the
backslashes that belong to it. -/
def backquoted (quoted : Bool) : Parse Raw :=
  repeatedly (fun (cs : Raw) => do
    match (← get).rest with
    | [] => fault "Syntax error: EOF in backquote substitution"
    | '\x60' :: _ => advance; return .inr cs.reverse
    | '\x5c' :: '\n' :: _ => advance; advance; return .inl cs
    | '\x5c' :: c :: _ =>
      advance; advance
      if c == '\x60' || c == '\x5c' || c == '$' || (quoted && c == '\x22') then
        return .inl (c :: cs)
      else return .inl (c :: '\x5c' :: cs)
    | c :: _ => advance; return .inl (c :: cs)) []

/-- Reads with a rule from another text, which begins on a given line, and
goes on where reading stood. -/
def within {α : Type} (line : Nat) (text : Raw) (rule : Parse α) : Parse α := do
  let outer ← get
  set { outer with rest := text, line := line, pushed := none, awaited := [] }
  let result ← rule
  modify fun inner => { outer with documents := inner.documents }
  return result

/-- The change that stands after the name of a parameter in braces, whether
it is a full one, and whether its word is quoted. None if there is no
change, and nothing if it is malformed. -/
def changeOf (quoted : Bool) : Parse (Option (Option (Change × Bool × Bool))) := do
  let simple (c : Char) : Option Change :=
    match c with
    | '-' => some .orElse
    | '=' => some .assign
    | '?' => some .complain
    | '+' => some .instead
    | _ => none
  match (← get).rest with
  | '\x7d' :: _ => return some none
  | ':' :: c :: _ =>
    match simple c with
    | some change => advance; advance; return some (some (change, true, quoted))
    | none => return none
  | c :: rest =>
    if c == '#' || c == '%' then
      advance
      let full := rest.head? == some c
      if full then advance
      return some (some (if c == '#' then .trimFront else .trimBack, full, false))
    else
      match simple c with
      | some change => advance; return some (some (change, false, quoted))
      | none => return none
  | [] => fault "Syntax error: Missing '\x7d'"

def malformedRest (quoted : Bool) : Parse Part := do
  let _ ← grammar.parts (.braces quoted)
  return .malformed

def bracedChange (name : Raw) (quoted : Bool) : Parse Part := do
  match ← changeOf quoted with
  | none => malformedRest grammar quoted
  | some none => advance; return .param name quoted
  | some (some (change, full, wordQuoted)) =>
    return .changed name change full (← grammar.parts (.braces wordQuoted)) quoted

def bracedLength (name : Raw) (quoted : Bool) : Parse Part := do
  match ← peek with
  | some '\x7d' => advance; return .length name quoted
  | _ => malformedRest grammar quoted

def braced (quoted : Bool) : Parse Part := do
  match (← get).rest with
  | [] => fault "Syntax error: Missing '\x7d'"
  | '#' :: rest =>
    match rest with
    | c :: d :: _ =>
      if isNameChar c then
        advance
        let name ← if c.isDigit then takeWhile Char.isDigit else takeWhile isNameChar
        bracedLength grammar name quoted
      else if c != '\x7d' && d == '\x7d' then
        if isSpecialParam c then
          advance; advance
          bracedLength grammar [c] quoted
        else malformedRest grammar quoted
      else advance; bracedChange grammar ['#'] quoted
    | _ => advance; bracedChange grammar ['#'] quoted
  | c :: _ =>
    if isNameStart c then bracedChange grammar (← takeWhile isNameChar) quoted
    else if c.isDigit then bracedChange grammar (← takeWhile Char.isDigit) quoted
    else if isSpecialParam c then advance; bracedChange grammar [c] quoted
    else malformedRest grammar quoted

/-- What a dollar sign begins, after it; nothing if it stands for itself. -/
def dollar (quoted : Bool) : Parse (Option Part) := do
  match (← get).rest with
  | '(' :: '(' :: _ =>
    advance; advance
    return some (.number (← grammar.parts (.number 0)) quoted)
  | '(' :: _ =>
    advance
    let outer ← get
    set { outer with awaited := [] }
    let commands ← grammar.list false true
    match (← get).pushed with
    | some (.operator ")") =>
      modify fun inner => { inner with pushed := none, awaited := outer.awaited }
      return some (.output commands quoted)
    | token => unexpected (token.getD .endOfFile) (some "\")\"")
  | '\x7b' :: _ => advance; return some (← braced grammar quoted)
  | c :: _ =>
    if isNameStart c then return some (.param (← takeWhile isNameChar) quoted)
    else if c.isDigit || isSpecialParam c then advance; return some (.param [c] quoted)
    else return none
  | [] => return none

/-- The characters that a backslash makes literal at a quoted place. -/
def isEscapable (place : Place) (c : Char) : Bool :=
  c == '$' || c == '\x60' || c == '\x5c' ||
    (c == '\x22' && (place == .quotes || place == .braces true)) ||
    (c == '\x7d' && place == .braces true)

def atEnd (place : Place) (parts : Reversed) : Parse (Place × Reversed ⊕ List Part) :=
  match place with
  | .word => return .inr parts.finish
  | .document => return .inr parts.finish
  | .quotes => fault "Syntax error: Unterminated quoted string"
  | .braces _ => fault "Syntax error: Missing '\x7d'"
  | .number _ => fault "Syntax error: Missing '))'"

/-- Reads one more part, or a character of one, or the end of the word. -/
def partStep (state : Place × Reversed) : Parse (Place × Reversed ⊕ List Part) := do
  let (place, parts) := state
  let quoted := place.isQuoted
  match (← get).rest with
  | [] => atEnd place parts
  | c :: rest =>
    if place == .word && isMeta c then return .inr parts.finish
    else if c == '\x22' && place == .quotes then advance; return .inr parts.finish
    else if c == '\x7d' && (place == .braces true || place == .braces false) then
      advance; return .inr parts.finish
    else if c == '$' then
      advance
      match ← dollar grammar quoted with
      | some part => return .inl (place, part :: parts)
      | none => return .inl (place, parts.push c quoted)
    else if c == '\x60' then
      advance
      let text ← backquoted (place == .quotes)
      let commands ← within 1 text (grammar.list false true)
      return .inl (place, .output commands quoted :: parts)
    else if c == '\x5c' then
      advance
      match rest with
      | '\n' :: _ => advance; return .inl (place, parts)
      | [] => return .inl (place, parts.push c true)
      | d :: _ =>
        if !quoted || isEscapable place d then advance; return .inl (place, parts.push d true)
        else return .inl (place, parts.push c true)
    else if c == '\x22' && !quoted then
      advance
      let inner ← grammar.parts .quotes
      return .inl (place, if inner.isEmpty then parts.pushQuoted []
        else .ofParts inner ++ parts)
    else if c == '\x22' && place == .braces true then advance; return .inl (place, parts)
    else if c == '\x27' && !quoted then
      advance
      return .inl (place, parts.pushQuoted (← singleQuoted))
    else
      advance
      match place with
      | .number depth =>
        if c == '(' then return .inl (.number (depth + 1), parts.push c true)
        else if c != ')' then return .inl (place, parts.push c true)
        else if 0 < depth then return .inl (.number (depth - 1), parts.push c true)
        else if rest.head? == some ')' then advance; return .inr parts.finish
        else return .inl (place, parts.push c true)
      | _ => return .inl (place, parts.push c quoted)

def readParts (place : Place) : Parse (List Part) :=
  repeatedly (partStep grammar) (place, [])

end Words

section Tokens

variable (grammar : Grammar)

def skipBlanks : Parse Unit :=
  repeatedly (fun (_ : Unit) => do
    match (← get).rest with
    | '\x5c' :: '\n' :: _ => advance; advance; return .inl ()
    | '#' :: _ =>
      let _ ← takeWhile (· != '\n')
      return .inr ()
    | c :: _ => if c == ' ' || c == '\t' then advance; return .inl () else return .inr ()
    | [] => return .inr ()) ()

def splitLine (text : Raw) : Raw × Raw :=
  (text.takeWhile (· != '\n'), (text.dropWhile (· != '\n')).drop 1)

/-- The lines of a here-document up to its delimiter, given the lines
before. -/
def documentText (awaited : Awaited) : Parse Raw :=
  repeatedly (fun (before : List Raw) => do
    let cursor ← get
    let (line, rest) := splitLine cursor.rest
    let shown := if awaited.indented then line.dropWhile (· == '\t') else line
    if cursor.rest.isEmpty then return .inr before.reverse.flatten
    else
      let ended := line.length < cursor.rest.length
      set { cursor with rest := rest, line := cursor.line + (if ended then 1 else 0) }
      if shown == awaited.delimiter then return .inr before.reverse.flatten
      else return .inl ((if ended then shown ++ ['\n'] else shown) :: before)) []

def readDocuments : Parse Unit := do
  let awaited := (← get).awaited
  modify fun cursor => { cursor with awaited := [] }
  for document in awaited do
    let line := (← get).line
    let text ← documentText document
    let parts ← if document.literal then pure [.text text true]
      else within line text (grammar.parts .document)
    modify fun cursor =>
      { cursor with documents := cursor.documents.set document.number parts }

def redirectionOperator (first : Char) : Parse String := do
  let second ← peek
  let long (c : Char) : Parse String := do
    advance
    return String.ofList [first, c]
  match first, second with
  | '<', some '<' =>
    advance
    if (← peek) == some '-' then advance; return "<<-" else return "<<"
  | '<', some '&' => long '&'
  | '<', some '>' => long '>'
  | '>', some '>' => long '>'
  | '>', some '&' => long '&'
  | '>', some '|' => long '|'
  | _, _ => return first.toString

def fdOf? (parts : List Part) : Option Nat :=
  match parts with
  | [.text [c] false] => if c.isDigit then some (c.toNat - 48) else none
  | _ => none

def readToken : Parse Token := do
  skipBlanks
  match (← get).rest with
  | [] => return .endOfFile
  | '\n' :: _ =>
    advance
    readDocuments grammar
    return .newline
  | c :: rest =>
    if c == '<' || c == '>' then
      advance
      return .redirection none (← redirectionOperator c)
    else if c == '(' || c == ')' then advance; return .operator c.toString
    else if c == '&' || c == '|' || c == ';' then
      advance
      if rest.head? == some c then advance; return .operator (String.ofList [c, c])
      else return .operator c.toString
    else
      let parts ← grammar.parts .word
      match fdOf? parts, ← peek with
      | some fd, some d =>
        if d == '<' || d == '>' then
          advance
          return .redirection (some fd) (← redirectionOperator d)
        else return .word parts
      | _, _ => return .word parts

def putBack (token : Token) : Parse Unit :=
  modify fun cursor => { cursor with pushed := some token }

/-- The next token, as a keyword if it is to be looked up and is one. -/
def nextToken (keyword : Bool) : Parse Token := do
  let token ← match (← get).pushed with
    | some token =>
      modify fun cursor => { cursor with pushed := none }
      pure token
    | none => readToken grammar
  match token with
  | .word parts =>
    match plainText? parts with
    | some cs =>
      let text := String.ofList cs
      return if keyword && keywords.contains text then .keyword text else token
    | none => return token
  | _ => return token

def nextAfterLines (keyword : Bool) : Parse Token :=
  repeatedly (fun (_ : Unit) => do
    match ← nextToken grammar keyword with
    | .newline => return .inl ()
    | token => return .inr token) ()

def expectKeyword (text : String) : Parse Unit := do
  match ← nextAfterLines grammar true with
  | .keyword found =>
    if found == text then return else unexpected (.keyword found) (some s!"\"{text}\"")
  | token => unexpected token (some s!"\"{text}\"")

end Tokens

section Commands

variable (grammar : Grammar)

/-- The parts of a word without its quotes, and whether there were any. -/
def delimiterOf (parts : List Part) : Raw × Bool :=
  parts.foldl (fun (cs, quoted) part =>
    match part with
    | .text more inQuotes => (cs ++ more, quoted || inQuotes)
    | .param name _ => (cs ++ '$' :: name, quoted)
    | _ => (cs, quoted)) ([], false)

def readRedirection (fd : Option Nat) (operator : String) : Parse Redirection := do
  match ← nextToken grammar false with
  | .word parts =>
    let input := fd.getD 0
    let output := fd.getD 1
    match operator with
    | "<" => return .file input .read parts
    | ">" => return .file output .write parts
    | ">|" => return .file output .write parts
    | ">>" => return .file output .append parts
    | "<>" => return .file input .both parts
    | "<&" => return .duplicate input parts
    | ">&" => return .duplicate output parts
    | _ =>
      let (delimiter, quoted) := delimiterOf parts
      let number := (← get).documents.length
      modify fun cursor => { cursor with
        awaited := cursor.awaited ++ [⟨number, delimiter, quoted, operator == "<<-"⟩]
        documents := cursor.documents ++ [[]] }
      return .document input number
  | token => unexpected token none

def readRedirections : Parse (List Redirection) :=
  repeatedly (fun (before : List Redirection) => do
    match ← nextToken grammar true with
    | .redirection fd operator =>
      return .inl ((← readRedirection grammar fd operator) :: before)
    | token => putBack token; return .inr before.reverse) []

def assignment? (parts : List Part) : Option (Raw × List Part) :=
  match parts with
  | .text cs false :: rest =>
    let name := cs.takeWhile (· != '=')
    if isName name && name.length < cs.length then
      let value := cs.drop (name.length + 1)
      some (name, if value.isEmpty then rest else .text value false :: rest)
    else none
  | _ => none

/-- The commands that belong to the shell itself and whose faults end it. -/
def specialBuiltins : List String :=
  [".", ":", "break", "continue", "eval", "exec", "exit", "export", "local", "readonly",
    "return", "set", "shift", "times", "trap", "unset"]

structure SimpleDraft where
  assignments : List (Raw × List Part)
  words : List (List Part)
  redirections : List Redirection

def simpleCommand : Parse Command := do
  let line := (← get).line
  repeatedly (fun (draft : SimpleDraft) => do
    let finish : Command :=
      .simple line draft.assignments.reverse draft.words.reverse draft.redirections.reverse
    match ← nextToken grammar false with
    | .word parts =>
      match draft.words, assignment? parts with
      | [], some assignment =>
        return .inl { draft with assignments := assignment :: draft.assignments }
      | _, _ => return .inl { draft with words := parts :: draft.words }
    | .redirection fd operator =>
      let redirection ← readRedirection grammar fd operator
      return .inl { draft with redirections := redirection :: draft.redirections }
    | .operator "(" =>
      match draft.words, draft.assignments, draft.redirections with
      | [name], [], [] =>
        match ← nextToken grammar false with
        | .operator ")" =>
          match plainText? name with
          | some cs =>
            if !isName cs || specialBuiltins.contains (String.ofList cs) then
              fault "Syntax error: Bad function name"
            else
              putBack (← nextAfterLines grammar true)
              let at_ := (← get).line
              return .inr (.define at_ cs (← grammar.command))
          | none => fault "Syntax error: Bad function name"
        | token => unexpected token (some "\")\"")
      | _, _, _ => putBack (.operator "("); return .inr finish
    | token => putBack token; return .inr finish) ⟨[], [], []⟩

def choiceRest (condition : List Command) : Parse Command := do
  expectKeyword grammar "then"
  let body ← grammar.list false false
  repeatedly (fun (before : List (List Command × List Command)) => do
    let build (otherwise : List Command) : Option Command :=
      before.foldl (fun (inner : Option Command) branch =>
        some (.choice branch.1 branch.2 (match inner with
          | none => otherwise
          | some command => [command]))) none
    let closed (otherwise : List Command) : Parse Command := do
      expectKeyword grammar "fi"
      return (build otherwise).getD (.group [])
    match ← nextAfterLines grammar true with
    | .keyword "elif" =>
      let condition ← grammar.list false false
      expectKeyword grammar "then"
      return .inl ((condition, ← grammar.list false false) :: before)
    | .keyword "else" => return .inr (← closed (← grammar.list false false))
    | token => putBack token; return .inr (← closed [])) [(condition, body)]

def loopWords : Parse (List (List Part)) :=
  repeatedly (fun (before : List (List Part)) => do
    match ← nextToken grammar false with
    | .word parts => return .inl (parts :: before)
    | .newline => return .inr before.reverse
    | .operator ";" => return .inr before.reverse
    | token => unexpected token none) []

def loopBody : Parse (List Command) := do
  expectKeyword grammar "do"
  let body ← grammar.list false false
  expectKeyword grammar "done"
  return body

def eachCommand (line : Nat) : Parse Command := do
  match ← nextToken grammar false with
  | .word parts =>
    match plainText? parts with
    | some name =>
      if !isName name then fault "Syntax error: Bad for loop variable"
      match ← nextAfterLines grammar true with
      | .keyword "in" =>
        let words ← loopWords grammar
        return .each line name (some words) (← loopBody grammar)
      | .operator ";" => return .each line name none (← loopBody grammar)
      | token => putBack token; return .each line name none (← loopBody grammar)
    | none => fault "Syntax error: Bad for loop variable"
  | _ => fault "Syntax error: Bad for loop variable"

/-- The patterns of a branch. Whatever stands in the place of a pattern is
taken for one. -/
def branchPatterns : Parse (List (List Part)) :=
  repeatedly (fun (before : List (List Part)) => do
    let pattern := match ← nextToken grammar false with
      | .word parts => parts
      | _ => []
    match ← nextToken grammar false with
    | .operator "|" => return .inl (pattern :: before)
    | .operator ")" => return .inr (pattern :: before).reverse
    | token => unexpected token (some "\")\"")) []

def casesCommand (line : Nat) : Parse Command := do
  match ← nextToken grammar false with
  | .word subject =>
    expectKeyword grammar "in"
    repeatedly (fun (before : List (List (List Part) × List Command)) => do
      match ← nextAfterLines grammar true with
      | .keyword "esac" => return .inr (.cases line subject before.reverse)
      | token =>
        match token with
        | .operator "(" => pure ()
        | .keyword text => putBack (.word [.text text.toList false])
        | token => putBack token
        let patterns ← branchPatterns grammar
        let body ← grammar.list false true
        match ← nextAfterLines grammar true with
        | .keyword "esac" =>
          return .inr (.cases line subject ((patterns, body) :: before).reverse)
        | .operator ";;" => return .inl ((patterns, body) :: before)
        | token => unexpected token (some "\";;\"")) []
  | token => unexpected token (some "word")

def readCommand : Parse Command := do
  let line := (← get).line
  let finish (command : Command) : Parse Command := do
    match ← readRedirections grammar with
    | [] => return command
    | redirections => return .redirected line command redirections
  match ← nextToken grammar true with
  | .keyword "if" => finish (← choiceRest grammar (← grammar.list false false))
  | .keyword "while" =>
    let condition ← grammar.list false false
    finish (.loop false condition (← loopBody grammar))
  | .keyword "until" =>
    let condition ← grammar.list false false
    finish (.loop true condition (← loopBody grammar))
  | .keyword "for" => finish (← eachCommand grammar line)
  | .keyword "case" => finish (← casesCommand grammar line)
  | .keyword "\x7b" =>
    let body ← grammar.list false false
    expectKeyword grammar "\x7d"
    match body, ← readRedirections grammar with
    | body, [] => return .group body
    | [.redirected _ (.subshell at_ inner) _], redirections =>
      return .redirected line (.subshell at_ inner) redirections
    | body, redirections => return .redirected line (.group body) redirections
  | .operator "(" =>
    let body ← grammar.list false false
    match ← nextToken grammar true with
    | .operator ")" => finish (.subshell line body)
    | token => unexpected token (some "\")\"")
  | .word parts => putBack (.word parts); simpleCommand grammar
  | .redirection fd operator => putBack (.redirection fd operator); simpleCommand grammar
  | token => unexpected token none

def pipeline : Parse Command := do
  let negated ← match ← nextToken grammar true with
    | .keyword "!" => pure true
    | token => putBack token; pure false
  let first ← grammar.command
  repeatedly (fun (before : List Command) => do
    match ← nextToken grammar true with
    | .operator "|" =>
      putBack (← nextAfterLines grammar true)
      return .inl ((← grammar.command) :: before)
    | token =>
      putBack token
      match negated, before with
      | false, [only] => return .inr only
      | _, _ => return .inr (.pipe negated before.reverse)) [first]

/-- Pipelines of which each depends on the status of the one before it. -/
def chain : Parse Command := do
  let first ← pipeline grammar
  repeatedly (fun (left : Command) => do
    match ← nextToken grammar true with
    | .operator "&&" =>
      putBack (← nextAfterLines grammar true)
      return .inl (.both left (← pipeline grammar))
    | .operator "||" =>
      putBack (← nextAfterLines grammar true)
      return .inl (.either left (← pipeline grammar))
    | token => putBack token; return .inr left) first

def endsList : Token → Bool
  | .endOfFile => true
  | .operator text => text == ")" || text == ";;"
  | .keyword text =>
    ["do", "done", "elif", "else", "esac", "fi", "then", "\x7d"].contains text
  | _ => false

/-- A list of commands: a line, or what stands in a command up to a word
that ends it. The second argument tells whether it may be empty. -/
def readList (isLine mayEnd : Bool) : Parse (List Command) :=
  repeatedly (fun (state : Bool × List Command) => do
    let (mayEnd, before) := state
    let token ← if isLine then nextToken grammar true else nextAfterLines grammar true
    match token with
    | .newline => return .inr before.reverse
    | .endOfFile => putBack token; return .inr before.reverse
    | token =>
      putBack token
      if !isLine && mayEnd && endsList token then return .inr before.reverse
      else
        let command ← chain grammar
        match ← nextToken grammar true with
        | .operator "&" => return .inl (true, .background command :: before)
        | .operator ";" => return .inl (true, command :: before)
        | .newline => putBack .newline; return .inl (true, command :: before)
        | .endOfFile => putBack .endOfFile; return .inr (command :: before).reverse
        | token =>
          if isLine then unexpected token none
          else putBack token; return .inr (command :: before).reverse) (mayEnd, [])

end Commands

mutual

/-- The parts of a word, with commands inside nested at most so deeply. -/
def partsAt : Nat → Place → Parse (List Part)
  | 0, _ => fault "too deep"
  | depth + 1, place => readParts ⟨partsAt depth, commandAt depth, listAt depth⟩ place

def commandAt : Nat → Parse Command
  | 0 => fault "too deep"
  | depth + 1 => readCommand ⟨partsAt depth, commandAt depth, listAt depth⟩

/-- A list of commands, with commands inside nested at most so deeply. -/
def listAt : Nat → Bool → Bool → Parse (List Command)
  | 0, _, _ => fault "too deep"
  | depth + 1, isLine, mayEnd =>
    readList ⟨partsAt depth, commandAt depth, listAt depth⟩ isLine mayEnd

end

/-- The commands of the next line, or nothing at the end of the script. -/
def readLine : Parse (Option (List Command)) := do
  let cursor ← get
  let commands ← listAt (cursor.rest.length + 4) true false
  let after ← get
  match commands, after.pushed with
  | [], some .endOfFile => return none
  | _, _ => return some commands

end Xdr.Shell
