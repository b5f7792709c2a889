import Routine.Sql.Token
import Routine.Text.Location

/-!
# Parsed SQL

A `Tree` is a parsed statement, expression or type. The forms that other parts of the library look
into have constructors of their own; every other form is a phrase, the list of its parts. Rendering
writes the parts one after the other, so a tree holds its keywords and separators in the one spelling
in which they are written, and what the source text had in their place is gone.

An identifier remembers where it stood in the text it was read from. Two trees are the `same` when
they differ at most in those places.
-/

namespace Routine
namespace Sql

open Text (Location)

/-- A stretch of a text, from the first place to before the second. -/
structure Span where
  start : Location
  stop : Location
deriving DecidableEq, Repr, Inhabited

namespace Span

/-- The stretch of what stands nowhere in the text. -/
def nowhere : Span := ⟨⟨0, 0⟩, ⟨0, 0⟩⟩

end Span

/-- A name, with the mark it is quoted with, if any. -/
structure Ident where
  value : String
  mark : Option Char
  span : Span
deriving DecidableEq, Repr, Inhabited

/-- A constant. -/
inductive Literal where
  | number (digits : String) (long : Bool)
  | string (kind : StringKind) (value : String)
  | dollar (tag : Option String) (value : String)
  | bool (b : Bool)
  | null
  | placeholder (text : String)
deriving DecidableEq, Repr, Inhabited

/-- A parsed statement, expression or type. -/
inductive Tree where
  /-- Keywords and separators, as they are written. -/
  | keyword (text : String)
  /-- A name that is no expression: a table, a column list, an alias. -/
  | name (id : Ident)
  /-- A name that is an expression. -/
  | identifier (id : Ident)
  /-- `a.b` -/
  | compound (ids : List Ident)
  | literal (value : Literal)
  /-- An expression in parentheses. -/
  | nested (inner : Tree)
  | binary (op : String) (left right : Tree)
  | unary (op : String) (operand : Tree)
  | isNull (operand : Tree)
  /-- A query in parentheses. -/
  | subquery (query : Tree)
  /-- A function call: the name, and what follows it. -/
  | call (function : List Ident) (rest : List Tree)
  /-- An expression with members or elements taken from it. -/
  | access (root : Tree) (steps : List Tree)
  /-- `value::type` -/
  | cast (value type : Tree)
  /-- A type that is spelled with keywords. -/
  | builtin (text : String)
  /-- A type with a name and modifiers. -/
  | custom (type : List Ident) (modifiers : List String)
  /-- An array type. -/
  | array (item : Tree) (size : Option Nat)
  /-- `SAVEPOINT name` -/
  | savepoint (id : Ident)
  | phrase (parts : List Tree)
deriving Repr, Inhabited

/-! ## Rendering -/

/-- A text between quotes. A quote inside is written twice, except after a backslash, and two quotes
in a row stand for themselves. `previous` is the character before. -/
def quoteInner (mark previous : Char) : List Char → List Char
  | [] => []
  | [c] =>
    if c = mark then (if previous = '\\' then [c] else [c, c]) else [c]
  | c :: d :: cs =>
    if c = mark then
      if previous = '\\' then c :: quoteInner mark previous (d :: cs)
      else if d = mark then c :: c :: quoteInner mark c cs
      else c :: c :: quoteInner mark c (d :: cs)
    else c :: quoteInner mark c (d :: cs)

/-- A text between a pair of marks. -/
def between (mark : Char) (text : String) : String :=
  String.ofList (mark :: quoteInner mark '\x00' text.toList ++ [mark])

namespace Ident

/-- A name without quotes that stands nowhere. -/
def plain (value : String) : Ident := ⟨value, none, .nowhere⟩

/-- The name as it is written. -/
def render (id : Ident) : String :=
  match id.mark with
  | none => id.value
  | some '[' => "[" ++ id.value ++ "]"
  | some mark => between mark id.value

/-- Equal but for the place. -/
def same (a b : Ident) : Bool :=
  a.value == b.value && a.mark == b.mark

/-- Every name is the same as itself. -/
theorem same_refl (a : Ident) : a.same a = true := by
  simp [same]

/-- The name under a new value; quotes stay. -/
def rename (id : Ident) (new : String) : Ident :=
  { id with value := new }

/-- A dotted name as it is written. -/
def renderDotted (ids : List Ident) : String :=
  String.intercalate "." (ids.map render)

end Ident

/-- A character of an `E'…'` string. -/
def escapedChar : Char → List Char
  | '\'' => ['\\', '\'']
  | '\\' => ['\\', '\\']
  | '\n' => ['\\', 'n']
  | '\t' => ['\\', 't']
  | '\r' => ['\\', 'r']
  | c => [c]

/-- The last `width` hexadecimal digits of a number, in capitals. -/
def hexDigits (width n : Nat) : List Char :=
  let digits := (Nat.toDigits 16 n).map Char.toUpper
  List.replicate (width - digits.length) '0' ++ digits

/-- A character of a `U&'…'` string. -/
def unicodeChar (c : Char) : List Char :=
  if c = '\'' then ['\'', '\'']
  else if c = '\\' then ['\\', '\\']
  else if c.toNat < 0x80 then [c]
  else if c.toNat ≤ 0xFFFF then '\\' :: hexDigits 4 c.toNat
  else '\\' :: '+' :: hexDigits 6 c.toNat

namespace Literal

/-- The constant as it is written. -/
def render : Literal → String
  | number digits long => digits ++ (if long then "L" else "")
  | string .plain value => between '\'' value
  | string .escaped value => "E'" ++ String.ofList (value.toList.flatMap escapedChar) ++ "'"
  | string .unicode value => "U&'" ++ String.ofList (value.toList.flatMap unicodeChar) ++ "'"
  | string .national value => "N'" ++ value ++ "'"
  | string .bits value => "B'" ++ value ++ "'"
  | string .wideBits value => "B\"" ++ value ++ "\""
  | string .hex value => "X'" ++ value ++ "'"
  | dollar none value => "$$" ++ value ++ "$$"
  | dollar (some tag) value => "$" ++ tag ++ "$" ++ value ++ "$" ++ tag ++ "$"
  | bool b => if b then "true" else "false"
  | null => "NULL"
  | placeholder text => text

end Literal

namespace Tree

/-- An operator before its operand, or after it if it is the factorial. -/
def renderUnary (op operand : String) : String :=
  if op = "NOT" then op ++ " " ++ operand
  else if op = "!" then operand ++ op
  else op ++ operand

mutual

/-- The tree as it is written. -/
def render : Tree → String
  | keyword text => text
  | name id => id.render
  | identifier id => id.render
  | compound ids => Ident.renderDotted ids
  | literal value => value.render
  | nested inner => "(" ++ inner.render ++ ")"
  | binary op left right => left.render ++ " " ++ op ++ " " ++ right.render
  | unary op operand => renderUnary op operand.render
  | isNull operand => operand.render ++ " IS NULL"
  | subquery query => "(" ++ query.render ++ ")"
  | call function rest => Ident.renderDotted function ++ renderAll rest
  | access root steps => root.render ++ renderAll steps
  | cast value type => value.render ++ "::" ++ type.render
  | builtin text => text
  | custom type modifiers =>
    Ident.renderDotted type ++
      (if modifiers.isEmpty then "" else "(" ++ String.intercalate ", " modifiers ++ ")")
  | array item size =>
    item.render ++ "[" ++ (match size with | none => "" | some n => toString n) ++ "]"
  | savepoint id => "SAVEPOINT " ++ id.render
  | phrase parts => renderAll parts

/-- The trees one after the other. -/
def renderAll : List Tree → String
  | [] => ""
  | t :: ts => t.render ++ renderAll ts

end

/-! ## Comparing -/

/-- The names are equal but for their places. -/
def sameIdents : List Ident → List Ident → Bool
  | [], [] => true
  | a :: as, b :: bs => a.same b && sameIdents as bs
  | _, _ => false

mutual

/-- The trees are equal but for the places of their names. -/
def same : Tree → Tree → Bool
  | keyword s, keyword t => s == t
  | name a, name b => a.same b
  | identifier a, identifier b => a.same b
  | compound as, compound bs => sameIdents as bs
  | literal v, literal w => v == w
  | nested a, nested b => a.same b
  | binary p a b, binary q c d => p == q && a.same c && b.same d
  | unary p a, unary q b => p == q && a.same b
  | isNull a, isNull b => a.same b
  | subquery a, subquery b => a.same b
  | call as ts, call bs us => sameIdents as bs && sameAll ts us
  | access a ts, access b us => a.same b && sameAll ts us
  | cast a t, cast b u => a.same b && t.same u
  | builtin s, builtin t => s == t
  | custom as ms, custom bs ns => sameIdents as bs && ms == ns
  | array a m, array b n => a.same b && m == n
  | savepoint a, savepoint b => a.same b
  | phrase ts, phrase us => sameAll ts us
  | _, _ => false

/-- The trees are equal in order but for the places of their names. -/
def sameAll : List Tree → List Tree → Bool
  | [], [] => true
  | t :: ts, u :: us => t.same u && sameAll ts us
  | _, _ => false

end

theorem sameIdents_refl (as : List Ident) : sameIdents as as = true := by
  induction as with
  | nil => rfl
  | cons a as ih => simp [sameIdents, Ident.same_refl, ih]

mutual

/-- Every tree is the same as itself. -/
theorem same_refl : (t : Tree) → t.same t = true
  | keyword _ => by simp [same]
  | name a => by simp [same, Ident.same_refl]
  | identifier a => by simp [same, Ident.same_refl]
  | compound as => by simp [same, sameIdents_refl]
  | literal _ => by simp [same]
  | nested a => by simp [same, same_refl a]
  | binary _ a b => by simp [same, same_refl a, same_refl b]
  | unary _ a => by simp [same, same_refl a]
  | isNull a => by simp [same, same_refl a]
  | subquery a => by simp [same, same_refl a]
  | call as ts => by simp [same, sameIdents_refl, sameAll_refl ts]
  | access a ts => by simp [same, same_refl a, sameAll_refl ts]
  | cast a b => by simp [same, same_refl a, same_refl b]
  | builtin _ => by simp [same]
  | custom as _ => by simp [same, sameIdents_refl]
  | array a _ => by simp [same, same_refl a]
  | savepoint a => by simp [same, Ident.same_refl]
  | phrase ts => by simp [same, sameAll_refl ts]

theorem sameAll_refl : (ts : List Tree) → sameAll ts ts = true
  | [] => by simp [sameAll]
  | t :: ts => by simp [sameAll, same_refl t, sameAll_refl ts]

end

/-! ## Renaming -/

mutual

/-- Every expression that is the one name `old` gets the new name. -/
def rename (old new : String) : Tree → Tree
  | identifier id => identifier (if id.value = old then id.rename new else id)
  | nested inner => nested (inner.rename old new)
  | binary op left right => binary op (left.rename old new) (right.rename old new)
  | unary op operand => unary op (operand.rename old new)
  | isNull operand => isNull (operand.rename old new)
  | subquery query => subquery (query.rename old new)
  | call function rest => call function (renameAll old new rest)
  | access root steps => access (root.rename old new) (renameAll old new steps)
  | cast value type => cast (value.rename old new) (type.rename old new)
  | array item size => array (item.rename old new) size
  | phrase parts => phrase (renameAll old new parts)
  | t => t

/-- Renames in every tree. -/
def renameAll (old new : String) : List Tree → List Tree
  | [] => []
  | t :: ts => t.rename old new :: renameAll old new ts

end

mutual

/-- Number of expressions that are the one name. -/
def mentions (name : String) : Tree → Nat
  | identifier id => if id.value = name then 1 else 0
  | nested inner => inner.mentions name
  | binary _ left right => left.mentions name + right.mentions name
  | unary _ operand => operand.mentions name
  | isNull operand => operand.mentions name
  | subquery query => query.mentions name
  | call _ rest => mentionsAll name rest
  | access root steps => root.mentions name + mentionsAll name steps
  | cast value type => value.mentions name + type.mentions name
  | array item _ => item.mentions name
  | phrase parts => mentionsAll name parts
  | _ => 0

/-- Number of expressions in all trees that are the one name. -/
def mentionsAll (name : String) : List Tree → Nat
  | [] => 0
  | t :: ts => t.mentions name + mentionsAll name ts

end

mutual

/-- Number of trees around the innermost one, itself included. -/
def depth : Tree → Nat
  | nested inner => inner.depth + 1
  | binary _ left right => max left.depth right.depth + 1
  | unary _ operand => operand.depth + 1
  | isNull operand => operand.depth + 1
  | subquery query => query.depth + 1
  | call _ rest => depthAll rest + 1
  | access root steps => max root.depth (depthAll steps) + 1
  | cast value type => max value.depth type.depth + 1
  | array item _ => item.depth + 1
  | phrase parts => depthAll parts + 1
  | _ => 1

/-- The greatest depth among the trees. -/
def depthAll : List Tree → Nat
  | [] => 0
  | t :: ts => max t.depth (depthAll ts)

end

end Tree
end Sql
end Routine
