import Routine.Sql.Lexer
import Routine.Sql.Tree

/-!
# Parsers over tokens

A parser reads from the front of a list of tokens without blanks and comments, and gives back the
tokens that are left. A fault keeps the tokens that were left when it arose, because some rules look
at the token where another rule gave up. Rules that try one form before another go on from where they
started; running out of nesting levels is the one fault that they pass on.
-/

namespace Routine
namespace Sql
namespace Grammar

open Text (Location)

/-- A token and where it stands. -/
structure Placed where
  token : Token
  span : Span
deriving Repr

/-- The tokens of a text that are no blanks or comments. `here` is the place of the first lexeme. -/
def placed (here : Location) : List Lexeme → List Placed
  | [] => []
  | l :: ls =>
    let after := here.after l.source
    if l.token.isGap then placed after ls else ⟨l.token, ⟨here, after⟩⟩ :: placed after ls

/-- Why a list of tokens is not what was asked for. -/
structure Fault where
  message : String
  /-- Nesting went too deep. -/
  tooDeep : Bool
  /-- The tokens that were left. -/
  rest : List Placed
deriving Repr

/-- Reads from the front of the tokens. -/
abbrev Parser (α : Type) := StateT (List Placed) (Except Fault) α

/-- A place at the end of a message; the end of the text has none. -/
def atPlace : Option Placed → String
  | none => ""
  | some p => " at Line: " ++ toString p.span.start.line ++ ", Column: " ++ toString p.span.start.column

/-- Fails with a message. -/
def fail {α : Type} (message : String) : Parser α :=
  fun rest => .error ⟨message, false, rest⟩

/-- Fails because nesting goes too deep. -/
def tooDeep {α : Type} : Parser α :=
  fun rest => .error ⟨"recursion limit exceeded", true, rest⟩

/-- Fails because a token is not what was wanted. -/
def expected {α : Type} (what : String) (found : Option Placed) : Parser α :=
  let shown := match found with
    | none => "EOF"
    | some p => p.token.display
  fail ("Expected: " ++ what ++ ", found: " ++ shown ++ atPlace found)

/-- The next token, which stays. -/
def peek : Parser (Option Placed) :=
  fun rest => .ok (rest.head?, rest)

/-- The next token, which is taken. -/
def next : Parser (Option Placed) :=
  fun rest => .ok (rest.head?, rest.tail)

/-- Fails because the next token is not what was wanted. -/
def unexpected {α : Type} (what : String) : Parser α := do
  expected what (← peek)

/-- Takes the next token if it passes the test. -/
def takeIf (test : Token → Bool) : Parser Bool :=
  fun rest =>
    match rest with
    | p :: ps => if test p.token then .ok (true, ps) else .ok (false, rest)
    | [] => .ok (false, [])

/-- The next token passes the test. -/
def nextIs (test : Token → Bool) : Parser Bool :=
  fun rest => .ok ((rest.head?.map fun p => test p.token).getD false, rest)

/-- Takes the sign if it is next. -/
def sign? (text : String) : Parser Bool := takeIf (Token.isSign text)

/-- Takes the sign, which has to be next. -/
def sign (text : String) : Parser Unit := do
  if !(← sign? text) then unexpected text

/-- Takes the keyword if it is next. -/
def keyword? (word : String) : Parser Bool := takeIf (Token.isKeyword word)

/-- Takes the keyword, which has to be next. -/
def keyword (word : String) : Parser Unit := do
  if !(← keyword? word) then unexpected word

/-- The tokens start with the keywords. -/
def startsWith : List String → List Placed → Bool
  | [], _ => true
  | w :: ws, p :: ps => p.token.isKeyword w && startsWith ws ps
  | _ :: _, [] => false

/-- Takes all of the keywords if they are next, and none otherwise. -/
def keywords? (words : List String) : Parser Bool :=
  fun rest =>
    if startsWith words rest then .ok (true, rest.drop words.length) else .ok (false, rest)

/-- Takes the keywords in order. -/
def keywords : List String → Parser Unit
  | [] => pure ()
  | w :: ws => do
    keyword w
    keywords ws

/-- Takes the first of the keywords that is next. -/
def oneOf? (words : List String) : Parser (Option String) :=
  fun rest =>
    match words.find? fun w => startsWith [w] rest with
    | some w => .ok (some w, rest.tail)
    | none => .ok (none, rest)

/-- Takes one of the keywords, which has to be next. -/
def oneOf (words : List String) : Parser String := do
  match ← oneOf? words with
  | some w => pure w
  | none => unexpected ("one of " ++ String.intercalate " or " words)

/-- Reads with the parser, or reads nothing if that fails. -/
def attempt {α : Type} (p : Parser α) : Parser (Option α) :=
  fun rest =>
    match p rest with
    | .ok (a, rest) => .ok (some a, rest)
    | .error f => if f.tooDeep then .error f else .ok (none, rest)

/-- Reads with the parser when the keyword is next. -/
def after? {α : Type} (words : List String) (p : Parser α) : Parser (Option α) := do
  if ← keywords? words then pure (some (← p)) else pure none

/-- The items after the first, each behind a comma. There are at most `fuel` of them. -/
def moreItems {α : Type} (p : Parser α) : (fuel : Nat) → Parser (List α)
  | 0 => pure []
  | fuel + 1 => do
    if ← sign? "," then
      let a ← p
      pure (a :: (← moreItems p fuel))
    else pure []

/-- One or more items with commas between them. -/
def items {α : Type} (p : Parser α) : Parser (List α) := do
  let a ← p
  let rest ← get
  pure (a :: (← moreItems p rest.length))

/-- Items between parentheses. -/
def inParens {α : Type} (p : Parser α) : Parser α := do
  sign "("
  let a ← p
  sign ")"
  pure a

/-! ## Names -/

/-- The name that a word spells. -/
def identOf (value : String) (inQuotes : Bool) (span : Span) : Ident :=
  ⟨value, if inQuotes then some '"' else none, span⟩

/-- A name between single quotes; it has no place. -/
def stringIdent (value : String) : Ident := ⟨value, some '\'', .nowhere⟩

/-- A name. -/
def ident : Parser Ident := do
  let found ← next
  match found with
  | some ⟨.word value inQuotes, span⟩ => pure (identOf value inQuotes span)
  | some ⟨.string .plain value, _⟩ => pure (stringIdent value)
  | _ => expected "identifier" found

/-- The names after the first, each behind a dot. -/
def moreParts : (fuel : Nat) → Parser (List Ident)
  | 0 => pure []
  | fuel + 1 => do
    if ← sign? "." then
      let id ← ident
      pure (id :: (← moreParts fuel))
    else pure []

/-- A dotted name. -/
def dottedName : Parser (List Ident) := do
  let id ← ident
  let rest ← get
  pure (id :: (← moreParts rest.length))

/-- Names between parentheses; without parentheses there are none, if that is allowed. -/
def columnList (isOptional : Bool) : Parser (List Ident) := do
  if ← nextIs (Token.isSign "(") then inParens (items ident)
  else if isOptional then pure []
  else unexpected "a list of columns in parentheses"

/-- A natural number of 64 bits. -/
def natural : Parser Nat := do
  let found ← next
  match found with
  | some ⟨.number digits _, _⟩ =>
    let bad reason := fail ("Could not parse '" ++ digits ++ "' as u64: " ++ reason ++ atPlace found)
    match Lexer.numeral? 10 digits.toList with
    | some n => if n < UInt64.size then pure n else bad "number too large to fit in target type"
    | none => bad "invalid digit found in string"
  | _ => expected "literal int" found

/-! ## Phrases -/

/-- The trees with a separator between them. -/
def separated (separator : String) : List Tree → List Tree
  | [] => []
  | [t] => [t]
  | t :: ts => t :: .keyword separator :: separated separator ts

/-- A dotted name as part of a phrase. -/
def dotted (ids : List Ident) : Tree := .phrase (separated "." (ids.map .name))

/-- The trees with commas between them. -/
def commas (ts : List Tree) : Tree := .phrase (separated ", " ts)

/-- Names with commas between them. -/
def commaNames (ids : List Ident) : Tree := commas (ids.map .name)

/-- A tree behind some keywords, if there is one. -/
def clause (lead : String) : Option Tree → List Tree
  | none => []
  | some t => [.keyword lead, t]

/-- Trees behind some keywords, if there are any. -/
def listClause (lead : String) : List Tree → List Tree
  | [] => []
  | ts => [.keyword lead, commas ts]

/-- Keywords, if they are wanted. -/
def flagged (wanted : Bool) (text : String) : List Tree :=
  if wanted then [.keyword text] else []

end Grammar
end Sql
end Routine
