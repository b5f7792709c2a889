import Routine.Sql.Lexer

/-!
# Assignments

The text `target := value` is cut at its operator. A `:=` outside brackets always wins; without one,
exactly one `=` outside brackets is taken for the operator, and more than one is refused rather than
guessed at. Brackets are parentheses and square brackets, so an operator inside a named argument or
a subscript never counts.

The operators are looked for among the tokens. A text that cannot be cut into tokens is scanned
character by character under the same rules.
-/

namespace Routine

/-- The two sides of an assignment, without the blanks around them. -/
structure Assignment where
  target : String
  value : String
deriving DecidableEq, Repr

namespace Assignment

/-- One of the two sides. -/
inductive Side where
  | target
  | value
deriving DecidableEq, Repr

/-- What messages call a side. -/
def Side.name : Side → String
  | target => "target"
  | value => "value"

/-- Why a text is no assignment. -/
inductive Fault where
  /-- No operator stands outside brackets. -/
  | noOperator
  /-- Several `=` stand outside brackets and no `:=`. -/
  | ambiguous (count : Nat)
  /-- Nothing stands on one side of the operator. -/
  | emptySide (side : Side)
deriving DecidableEq, Repr

/-- The fault in words. -/
def Fault.message : Fault → String
  | noOperator => "no top-level assignment operator"
  | ambiguous count => "ambiguous assignment: " ++ toString count ++ " top-level `=` operators"
  | emptySide side => "assignment has an empty " ++ side.name

/-- An operator in a text: the characters before it and the characters of it. -/
structure Operator where
  start : Nat
  length : Nat
deriving DecidableEq, Repr

/-- The operator to cut at, from the `:=` and the `=` that stand outside brackets. -/
def choose (assigns equals : List Operator) : Except Fault Operator :=
  match assigns with
  | op :: _ => .ok op
  | [] =>
    match equals with
    | [] => .error .noOperator
    | [op] => .ok op
    | ops => .error (.ambiguous ops.length)

/-! ## Among tokens -/

/-- A token outside brackets, with its neighbours. -/
structure Placed where
  start : Nat
  before : Option Sql.Token
  lexeme : Sql.Lexeme
  after : Option Sql.Token

/-- By how much a token changes the bracket depth. -/
def tokenDepth : Sql.Token → Int
  | .sign "(" | .sign "[" => 1
  | .sign ")" | .sign "]" => -1
  | _ => 0

/-- The tokens outside brackets; `start` characters and the token `before` precede the list. -/
def surface (depth : Int) (start : Nat) (before : Option Sql.Token) : List Sql.Lexeme → List Placed
  | [] => []
  | l :: ls =>
    let rest := surface (depth + tokenDepth l.token) (start + l.source.length) (some l.token) ls
    if depth = 0 ∧ tokenDepth l.token = 0 then
      ⟨start, before, l, ls.head?.map Sql.Lexeme.token⟩ :: rest
    else rest

/-- The place of a token as an operator. -/
def Placed.operator (p : Placed) : Operator :=
  ⟨p.start, p.lexeme.source.length⟩

/-- An `=` that is not glued to a comparison sign. -/
def Placed.isEquals (p : Placed) : Bool :=
  p.lexeme.token == .sign "=" &&
    !(p.before == some (.sign "<") || p.before == some (.sign ">") || p.before == some (.sign "!")) &&
    !(p.after == some (.sign ">"))

/-- The operator of a text, found among its tokens. -/
def operatorOfLexemes (ls : List Sql.Lexeme) : Except Fault Operator :=
  let places := surface 0 0 none ls
  choose ((places.filter (·.lexeme.token == .sign ":=")).map Placed.operator)
    ((places.filter Placed.isEquals).map Placed.operator)

/-! ## Among characters -/

/-- A character outside quotes and brackets, with its neighbours. -/
structure PlacedChar where
  start : Nat
  before : Char
  here : Char
  after : Char

/-- By how much a character changes the bracket depth. -/
def charDepth (c : Char) : Int :=
  if c = '(' ∨ c = '[' then 1 else if c = ')' ∨ c = ']' then -1 else 0

/-- The characters outside quotes and brackets; `start` characters precede the text, the last of
them `before`, and `quote` is the mark of the quotation that is open. -/
def surfaceChars (quote : Option Char) (depth : Int) (start : Nat) (before : Char) :
    List Char → List PlacedChar
  | [] => []
  | c :: cs =>
    match quote with
    | some q =>
      if c = q then
        match cs with
        | d :: ds =>
          if d = q then surfaceChars quote depth (start + 2) d ds
          else surfaceChars none depth (start + 1) c (d :: ds)
        | [] => []
      else surfaceChars quote depth (start + 1) c cs
    | none =>
      if c = '\'' ∨ c = '"' then surfaceChars (some c) depth (start + 1) c cs
      else
        let rest := surfaceChars none (depth + charDepth c) (start + 1) c cs
        if depth = 0 ∧ charDepth c = 0 then ⟨start, before, c, cs.head?.getD ' '⟩ :: rest else rest

/-- A `:=` starts here. -/
def PlacedChar.isAssign (p : PlacedChar) : Bool :=
  p.here = ':' && p.after = '='

/-- An `=` that is part of no longer operator. -/
def PlacedChar.isEquals (p : PlacedChar) : Bool :=
  p.here = '=' && !(p.before ∈ ['<', '>', '!', ':', '=']) && !(p.after ∈ ['>', '='])

/-- The operator of a text, found among its characters. -/
def operatorOfChars (cs : List Char) : Except Fault Operator :=
  let places := surfaceChars none 0 0 ' ' cs
  choose ((places.filter PlacedChar.isAssign).map fun p => ⟨p.start, 2⟩)
    ((places.filter PlacedChar.isEquals).map fun p => ⟨p.start, 1⟩)

/-! ## The cut -/

/-- The operator that a text is cut at. -/
def operator (text : List Char) : Except Fault Operator :=
  match Sql.lexemes text with
  | .ok ls => operatorOfLexemes ls
  | .error _ => operatorOfChars text

/-- The two sides of an assignment. -/
def parse (text : String) : Except Fault Assignment := do
  let op ← operator text.toList
  let target := Text.strip (text.toList.take op.start)
  let value := Text.strip (text.toList.drop (op.start + op.length))
  if target.isEmpty then throw (.emptySide .target)
  if value.isEmpty then throw (.emptySide .value)
  return ⟨String.ofList target, String.ofList value⟩

end Assignment
end Routine
