import Routine.Sql.Grammar.Statement
import Routine.Text.Find

/-!
# Backends

A backend parses SQL text into trees and renders trees as text. Everything that deals with the SQL
inside a routine takes the backend as a parameter and assumes nothing else of it.

`postgres` reads the dialect. An expression is read as the only result of a selection, and a type as
the type that a null is cast to, so messages count columns from the front of that selection. The other
three exercise failures: one parses nothing, one renders nothing, and one takes any text for a name.
-/

namespace Routine
namespace Sql

/-- Why a backend failed. -/
inductive BackendError where
  | parse (message : String)
  | unexpectedShape (expected : String)
  | render (message : String)
deriving DecidableEq, Repr

namespace BackendError

/-- The failure in words. -/
def message : BackendError → String
  | parse message => "SQL parse error: " ++ message
  | unexpectedShape expected => "Unexpected parse shape: expected " ++ expected
  | render message => "SQL render error: " ++ message

end BackendError

/-- Parses text into trees and renders trees as text. -/
structure Backend where
  parseStatement : String → Except BackendError Tree
  parseExpression : String → Except BackendError Tree
  parseType : String → Except BackendError Tree
  renderStatement : Tree → Except BackendError String
  renderExpression : Tree → Except BackendError String
  renderType : Tree → Except BackendError String

namespace Backend

/-- The one statement of a text. -/
def single (sql : String) : Except BackendError Grammar.Query :=
  match Grammar.parse sql with
  | .error message => .error (.parse ("sql parser error: " ++ message))
  | .ok [s] => .ok s
  | .ok ss => .error (.unexpectedShape ("one statement, found " ++ toString ss.length))

/-- The statement that a text is. -/
def parseStatementText (sql : String) : Except BackendError Tree :=
  (single sql).map Grammar.Query.tree

/-- The expression that a text is. -/
def parseExpressionText (sql : String) : Except BackendError Tree := do
  match (← single ("SELECT " ++ sql)).single with
  | some e => .ok e
  | none => .error (.unexpectedShape "a single unaliased expression")

/-- The type that a text is. -/
def parseTypeText (sql : String) : Except BackendError Tree := do
  match (← single ("SELECT NULL::" ++ sql)).single with
  | some (.cast _ type) => .ok type
  | _ => .error (.unexpectedShape "a type name")

/-- Reads and writes the dialect. -/
def postgres : Backend where
  parseStatement := parseStatementText
  parseExpression := parseExpressionText
  parseType := parseTypeText
  renderStatement t := .ok t.render
  renderExpression t := .ok t.render
  renderType t := .ok t.render

/-- Parses nothing. -/
def refusing : Backend where
  parseStatement _ := .error (.parse "refused")
  parseExpression _ := .error (.parse "refused")
  parseType _ := .error (.parse "refused")
  renderStatement := postgres.renderStatement
  renderExpression := postgres.renderExpression
  renderType := postgres.renderType

/-- Renders nothing. -/
def mute : Backend where
  parseStatement := postgres.parseStatement
  parseExpression := postgres.parseExpression
  parseType := postgres.parseType
  renderStatement _ := .error (.render "mute")
  renderExpression _ := .error (.render "mute")
  renderType _ := .error (.render "mute")

/-- A text as a name, unless it holds the mark that is refused. -/
def echoIdent (sql : String) : Except BackendError Ident :=
  if Text.contains sql "!!" then .error (.parse ("echo refuses <" ++ sql ++ ">"))
  else .ok (.plain sql)

/-- The rendering of a tree, unless it holds the mark that is refused. -/
def echoRender (t : Tree) : Except BackendError String :=
  if Text.contains t.render "??" then .error (.render "echo") else .ok t.render

/-- Takes any text for a name. -/
def echo : Backend where
  parseStatement sql := (echoIdent sql).map .savepoint
  parseExpression sql := (echoIdent sql).map .identifier
  parseType sql := (echoIdent sql).map fun id => .custom [id] []
  renderStatement := echoRender
  renderExpression := echoRender
  renderType := echoRender

end Backend
end Sql
end Routine
