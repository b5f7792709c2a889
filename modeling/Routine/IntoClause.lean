import Routine.Sql.Lexer
import Routine.Sql.Words

/-!
# Placing an `INTO` clause

A query that stores its result is kept without its `INTO target` clause, and the clause is put back
when the query is written. In a query it goes before the first clause keyword that ends the list of
results; in a statement that changes data it goes to the end, after a `RETURNING` list. Only bare
words outside parentheses count, and never the name after a dot.

The words are looked for among the tokens. A text that cannot be cut into tokens is scanned
character by character under the same rules.
-/

namespace Routine
namespace IntoClause

/-- The keywords that end the list of results of a query. -/
def boundaries : List String :=
  ["FROM", "WHERE", "GROUP", "HAVING", "WINDOW", "ORDER", "LIMIT", "OFFSET", "FETCH", "FOR", "UNION",
   "INTERSECT", "EXCEPT"]

/-- The keywords of statements that change data. -/
def changes : List String :=
  ["INSERT", "UPDATE", "DELETE", "MERGE"]

/-- Where the clause goes. -/
inductive Placement where
  /-- Between the two pieces, which together are the text. -/
  | between (before after : String)
  /-- The text has a clause of its own. -/
  | alreadyPresent
deriving DecidableEq, Repr

/-! ## Words -/

/-- What is known of the statement so far. -/
inductive Mode where
  | undecided
  | query
  | change (afterReturning : Bool)
deriving DecidableEq, Repr

/-- What a word means for the clause. -/
inductive Verdict where
  | goOn (mode : Mode)
  | boundary
  | present
deriving DecidableEq, Repr

/-- The word is one of the keywords. -/
def isOneOf (keywords : List String) (word : String) : Bool :=
  keywords.any (Text.sameName word)

/-- What a bare word outside parentheses means. -/
def Mode.read (mode : Mode) (word : String) : Verdict :=
  match mode with
  | undecided =>
    if isOneOf ["SELECT", "VALUES"] word then .goOn query
    else if isOneOf changes word then .goOn (change false)
    else .goOn undecided
  | query =>
    if isOneOf ["INTO"] word then .present
    else if isOneOf boundaries word then .boundary
    else .goOn query
  | change afterReturning =>
    if isOneOf ["RETURNING"] word then .goOn (change true)
    else if afterReturning && isOneOf ["INTO"] word then .present
    else .goOn (change afterReturning)

/-- The result of a scan: the number of characters before the boundary, the end of the text, or a
clause that is already there. -/
inductive Found where
  | boundary (start : Nat)
  | atEnd
  | present
deriving DecidableEq, Repr

/-! ## Among tokens -/

/-- Scans the tokens from the left. `start` characters precede the list. -/
def scanLexemes (depth : Int) (mode : Mode) (afterDot : Bool) (start : Nat) : List Sql.Lexeme → Found
  | [] => .atEnd
  | l :: ls =>
    let next := start + l.source.length
    match l.token with
    | .gap => scanLexemes depth mode afterDot next ls
    | .sign "(" => scanLexemes (depth + 1) mode false next ls
    | .sign ")" => scanLexemes (depth - 1) mode false next ls
    | .sign "." => scanLexemes depth mode true next ls
    | .word value false =>
      if afterDot ∨ depth ≠ 0 then scanLexemes depth mode false next ls
      else
        match mode.read value with
        | .goOn mode => scanLexemes depth mode false next ls
        | .boundary => .boundary start
        | .present => .present
    | _ => scanLexemes depth mode false next ls

/-! ## Among characters -/

/-- Characters through the end of a quotation, from the text after its opening mark; a quotation
that is never closed takes the whole text. -/
def quotedLength (mark : Char) (escapes : Bool) : List Char → Nat
  | [] => 0
  | c :: cs =>
    if c = '\\' ∧ escapes then
      match cs with
      | _ :: ds => quotedLength mark escapes ds + 2
      | [] => 1
    else if c = mark then
      match cs with
      | d :: ds => if d = mark then quotedLength mark escapes ds + 2 else 1
      | [] => 1
    else quotedLength mark escapes cs + 1

/-- Characters through the end of a dollar quotation, from the text after its first dollar sign;
none if the sign opens no quotation. -/
def dollarLength (cs : List Char) : Option Nat :=
  if (cs.head?.map Char.isDigit).getD false then none
  else
    let tag := cs.takeWhile fun c => c.isAlphanum || c = '_'
    match cs.drop tag.length with
    | '$' :: body =>
      match Text.findPiece ('$' :: tag ++ ['$']) body with
      | some n => some (tag.length + 1 + n + (tag.length + 2))
      | none => some cs.length
    | _ => none

/-- The text before this place ends in the letter that makes backslashes escape in the string that
starts here. `before` is that text, last character first. -/
def opensEscapes : List Char → Bool
  | e :: rest => (e = 'E' || e = 'e') && !(rest.head?.map Sql.isWordChar).getD false
  | [] => false

/-- Characters after `c` that belong to a quotation or comment which `c` opens. -/
def opaqueLength (before : List Char) (c : Char) (cs : List Char) : Option Nat :=
  match c, cs with
  | '\'', cs => some (quotedLength '\'' (opensEscapes before) cs)
  | '"', cs => some (quotedLength '"' false cs)
  | '-', '-' :: _ => some (min ((cs.takeWhile (· ≠ '\n')).length + 1) cs.length)
  | '/', '*' :: rest => some ((Sql.Lexer.blockComment 1 rest).getD rest.length + 1)
  | '$', cs => if (before.head?.map Sql.isWordChar).getD false then none else dollarLength cs
  | _, _ => none

/-- Scans the characters from the left. `before` is the text to the left, last character first. -/
def scanChars (depth : Int) (mode : Mode) (before : List Char) (text : List Char) : Found :=
  match text with
  | [] => .atEnd
  | c :: cs =>
    match opaqueLength before c cs with
    | some k => scanChars depth mode ((cs.take k).reverse ++ c :: before) (cs.drop k)
    | none =>
      if (c.isAlpha ∨ c = '_') ∧ (before.head?.map Sql.isWordChar).getD false = false then
        let tail := cs.takeWhile Sql.isWordChar
        let passed := tail.reverse ++ c :: before
        if (Text.dropBlanks before).head? = some '.' ∨ depth ≠ 0 then
          scanChars depth mode passed (cs.drop tail.length)
        else
          match mode.read (String.ofList (c :: tail)) with
          | .goOn mode => scanChars depth mode passed (cs.drop tail.length)
          | .boundary => .boundary before.length
          | .present => .present
      else
        let depth := if c = '(' then depth + 1 else if c = ')' then depth - 1 else depth
        scanChars depth mode (c :: before) cs
termination_by text.length
decreasing_by all_goals simp only [List.length_cons, List.length_drop]; omega

/-! ## The clause -/

/-- Where the clause goes, from the result of a scan: before the blanks that precede the boundary. -/
def Found.placement (text : List Char) : Found → Placement
  | .present => .alreadyPresent
  | .boundary start => cut (text.take start)
  | .atEnd => cut text
where
  cut (piece : List Char) : Placement :=
    let before := Text.dropBlanksEnd piece
    .between (String.ofList before) (String.ofList (text.drop before.length))

/-- Where the clause goes in a text. -/
def placement (sql : String) : Placement :=
  let text := sql.toList
  let found := match Sql.lexemes text with
    | .ok ls => scanLexemes 0 .undecided false 0 ls
    | .error _ => scanChars 0 .undecided [] text
  found.placement text

/-- Bytes of the text before the clause. -/
def Placement.offset : Placement → Option Nat
  | between before _ => some (Text.byteLength before.toList)
  | alreadyPresent => none

/-- The text with the clause in its place. -/
def insert (sql clause : String) : String :=
  match placement sql with
  | .alreadyPresent => sql
  | .between before after =>
    let rest := Text.trim after
    if rest.isEmpty then before ++ " " ++ clause else before ++ " " ++ clause ++ " " ++ rest

end IntoClause
end Routine
