import Routine.Sql.Lexer

/-!
# Signatures of `CREATE FUNCTION` and `CREATE PROCEDURE`

Two things are read off such a statement: what its return clause makes of a bare `RETURN`, and the
string literal after `AS` that holds the body. The body can be taken out or replaced; a new body is
dollar-quoted with a tag that does not occur in it.
-/

namespace Routine

/-- The shapes a routine's result can have. -/
inductive ReturnKind where
  | void
  | setof
  | trigger
  | scalar
  | outParams
deriving DecidableEq, Repr

namespace Signature

open Sql (Lexeme Token)

/-- The lexemes from the first that is no blank or comment. -/
def skipGaps (ls : List Lexeme) : List Lexeme :=
  ls.dropWhile (·.token.isGap)

/-- The lexemes after the keyword, if they start with it. -/
def keyword? (keyword : String) : List Lexeme → Option (List Lexeme)
  | l :: ls => if l.token.isKeyword keyword then some ls else none
  | [] => none

/-- The routine is a procedure, and the lexemes after the head of the statement. -/
def header? (ls : List Lexeme) : Option (Bool × List Lexeme) := do
  let ls ← keyword? "CREATE" (skipGaps ls)
  let ls := skipGaps ls
  let ls ← match keyword? "OR" ls with
    | some ls => (keyword? "REPLACE" (skipGaps ls)).map skipGaps
    | none => some ls
  match keyword? "FUNCTION" ls, keyword? "PROCEDURE" ls with
  | some ls, _ => some (false, ls)
  | none, some ls => some (true, ls)
  | none, none => none

/-- Reads arguments to the parenthesis that closes the list: whether one of them is an output, and
the lexemes after the list. `depth` parentheses are open, and `fresh` says that an argument starts
with the next token. -/
def arguments (depth : Nat) (fresh found : Bool) : List Lexeme → Bool × List Lexeme
  | [] => (found, [])
  | l :: ls =>
    if depth = 0 then (found, l :: ls)
    else if l.token.isGap then arguments depth fresh found ls
    else
      let found := found || (fresh && (l.token.isWord "OUT" || l.token.isWord "INOUT"))
      if l.token.isSign "(" then arguments (depth + 1) false found ls
      else if l.token.isSign ")" then arguments (depth - 1) false found ls
      else arguments depth (depth = 1 && l.token.isSign ",") found ls

/-- The last part of the dotted name that the lexemes start with, in small letters. -/
def lastPart : List Lexeme → Option String
  | l :: ls =>
    match l.token with
    | .word value _ =>
      match ls with
      | dot :: rest =>
        if dot.token.isSign "." then some ((lastPart rest).getD (Text.lowercase value))
        else some (Text.lowercase value)
      | [] => some (Text.lowercase value)
    | _ => none
  | [] => none

/-- The result of a routine whose signature has the given return type. -/
def kindOfType (name : Option String) : ReturnKind :=
  if name = some "void" then .void
  else if name = some "trigger" ∨ name = some "event_trigger" then .trigger
  else .scalar

/-- What the routine returns; none if the text creates no routine. -/
def returnKind (sql : String) : Option ReturnKind := do
  let ls ← (Sql.lexemes sql.toList).toOption
  let (isProcedure, ls) ← header? ls
  let (hasOutputs, ls) := match ls.dropWhile (!·.token.isSign "(") with
    | _ :: ls => arguments 1 true false ls
    | [] => (false, [])
  if isProcedure then return .void
  match keyword? "RETURNS" (skipGaps ls) with
  | none => return if hasOutputs then .outParams else .void
  | some ls =>
    let ls := skipGaps ls
    let isSet := (ls.head?.map fun l => l.token.isWord "SETOF" || l.token.isKeyword "TABLE").getD false
    if isSet then return .setof
    if hasOutputs then return .outParams
    return kindOfType (lastPart ls)

/-! ## The body -/

/-- A statement cut around the literal of its body. -/
structure Body where
  before : List Char
  text : String
  after : List Char

/-- The text of a literal that can hold a body. -/
def literal? : Token → Option String
  | .dollar _ value => some value
  | .string .plain value => some value
  | _ => none

/-- The characters that the lexemes spell. -/
def spell (ls : List Lexeme) : List Char :=
  (ls.map Lexeme.source).flatten

/-- The body after the first `AS` outside parentheses; `before` is the text to the left. -/
def bodyFrom (depth : Int) (before : List Char) : List Lexeme → Option Body
  | [] => none
  | l :: ls =>
    let before := before ++ l.source
    if l.token.isSign "(" then bodyFrom (depth + 1) before ls
    else if l.token.isSign ")" then bodyFrom (depth - 1) before ls
    else if depth = 0 ∧ l.token.isKeyword "AS" then
      match skipGaps ls with
      | [] => none
      | lit :: rest =>
        (literal? lit.token).map fun text =>
          ⟨before ++ spell (ls.takeWhile (·.token.isGap)), text, spell rest⟩
    else bodyFrom depth before ls

/-- The body of a statement: the literal after the first `AS` that follows the argument list. -/
def body? (sql : String) : Option Body := do
  let ls ← (Sql.lexemes sql.toList).toOption
  let opening := ls.takeWhile (!·.token.isSign "(")
  bodyFrom 0 (spell opening) (ls.drop opening.length)

/-- The text of the body, with its quoting undone. -/
def extractBody (sql : String) : Option String :=
  (body? sql).map Body.text

/-! ## Dollar tags -/

/-- The tags with a name, in the order in which they are tried. -/
def numberedTag : Nat → String
  | 0 => "$body$"
  | n + 1 => "$body" ++ toString (n + 1) ++ "$"

/-- The first numbered tag from `n` on that does not occur in the body, among `fuel` of them. -/
def freeTag (body : String) : (fuel n : Nat) → String
  | 0, n => numberedTag n
  | fuel + 1, n =>
    if Text.contains body (numberedTag n) then freeTag body fuel (n + 1) else numberedTag n

/-- The tag to quote a body with: two dollar signs, or else the first numbered tag, that does not
occur in it. A body has fewer places than the tags that are tried, so one of them is free. -/
def tagFor (body : String) : String :=
  if Text.contains body "$$" then freeTag body (body.toList.length + 1) 0 else "$$"

/-- The statement with another body. -/
def replaceBody (sql body : String) : Option String :=
  (body? sql).map fun b =>
    let tag := tagFor body
    String.ofList b.before ++ tag ++ body ++ tag ++ String.ofList b.after

end Signature
end Routine
