import Routine.Sql.Tree

/-!
# SQL inside a routine

A routine's statements hold SQL as text. Such a *leaf* says how its text is to be read, and starts
out raw. Hydrating it puts a parsed tree beside the text; the text stays, so a leaf can always be
written as it was. The types of variables are leaves of their own kind.
-/

namespace Routine

/-- How the text of a leaf is to be read. -/
inductive ParseMode where
  /-- A whole statement. -/
  | statement
  /-- The name of a type. -/
  | typeName
  /-- An expression. -/
  | expression
  /-- An assignment to a name. -/
  | assign1
  /-- An assignment to a name of two parts. -/
  | assign2
  /-- An assignment to a name of three parts. -/
  | assign3
  /-- A mode this library gives no meaning to. -/
  | other (code : Int32)
deriving DecidableEq, Repr

namespace ParseMode

/-- The mode with a code. -/
def ofCode (code : Int32) : ParseMode :=
  if code = 0 then statement
  else if code = 1 then typeName
  else if code = 2 then expression
  else if code = 3 then assign1
  else if code = 4 then assign2
  else if code = 5 then assign3
  else other code

/-- The code of a mode. -/
def code : ParseMode → Int32
  | statement => 0
  | typeName => 1
  | expression => 2
  | assign1 => 3
  | assign2 => 4
  | assign3 => 5
  | other code => code

/-- The text is `target := value`. -/
def isAssignment : ParseMode → Bool
  | assign1 | assign2 | assign3 => true
  | _ => false

/-- The name of a mode. -/
def name : ParseMode → String
  | statement => "default"
  | typeName => "type_name"
  | expression => "plpgsql_expr"
  | assign1 => "plpgsql_assign1"
  | assign2 => "plpgsql_assign2"
  | assign3 => "plpgsql_assign3"
  | other _ => "other"

/-- A mode is known when its code is the code of no other mode. -/
def IsKnown : ParseMode → Prop
  | other code => ¬ (0 ≤ code ∧ code ≤ 5)
  | _ => True

end ParseMode

/-- What hydration made of a leaf. -/
inductive Content where
  /-- Nothing: the text is kept. -/
  | raw
  | statement (tree : Sql.Tree)
  | expression (tree : Sql.Tree)
  /-- The two sides of an assignment, each with its tree if it could be parsed. -/
  | assignment (target value : String) (targetTree valueTree : Option Sql.Tree)
deriving Repr

/-- SQL in a statement. -/
inductive Leaf where
  | raw (text : String) (mode : ParseMode)
  | hydrated (captured : String) (mode : ParseMode) (content : Content)
deriving Repr

namespace Leaf

/-- The text before hydration. -/
def captured : Leaf → String
  | raw text _ => text
  | hydrated captured _ _ => captured

/-- How the text is to be read. -/
def mode : Leaf → ParseMode
  | raw _ mode => mode
  | hydrated _ mode _ => mode

/-- The leaf has been hydrated. -/
def isHydrated : Leaf → Bool
  | raw _ _ => false
  | hydrated _ _ _ => true

end Leaf

/-- The type of a variable. -/
inductive TypeRef where
  | raw (name : String)
  /-- A parsed name. A suffix that makes it a reference is kept beside it. -/
  | hydrated (captured : String) (tree : Sql.Tree) (suffix : Option String)
deriving Repr

namespace TypeRef

/-- The text before hydration. -/
def captured : TypeRef → String
  | raw name => name
  | hydrated captured _ _ => captured

/-- The type has been hydrated. -/
def isHydrated : TypeRef → Bool
  | raw _ => false
  | hydrated _ _ _ => true

end TypeRef
end Routine
