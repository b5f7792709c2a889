import Routine.Sql.Grammar.Query

/-!
# Statements

A text is a list of statements with semicolons between them. Every statement, query and expression
takes one of a fixed number of nesting levels.
-/

namespace Routine
namespace Sql
namespace Grammar

section

variable (below : Below)

/-! ## Transactions -/

/-- One mode of a transaction, if one follows. -/
def transactionMode? : Parser (Option Tree) := do
  if ← keywords? ["ISOLATION", "LEVEL"] then
    match ← firstOf [["READ", "UNCOMMITTED"], ["READ", "COMMITTED"], ["REPEATABLE", "READ"],
        ["SERIALIZABLE"], ["SNAPSHOT"]] with
    | some words => pure (some (.keyword ("ISOLATION LEVEL " ++ String.intercalate " " words)))
    | none => unexpected "transaction isolation level"
  else
    match ← firstOf [["READ", "ONLY"], ["READ", "WRITE"]] with
    | some words => pure (some (.keyword (String.intercalate " " words)))
    | none => pure none

/-- The modes of a transaction. Commas between them may be left out, and a mode has to follow each. -/
def transactionModes (required : Bool) : (fuel : Nat) → Parser (List Tree)
  | 0 => pure []
  | fuel + 1 => do
    match ← transactionMode? with
    | some mode =>
      let comma ← sign? ","
      pure (mode :: (← transactionModes comma fuel))
    | none => if required then unexpected "transaction mode" else pure []

/-- The modes of a transaction as they are written. -/
def modes : Parser (List Tree) := do
  let rest ← get
  pure (listClause " " (← transactionModes false (rest.length + 1)))

/-- Whether a new transaction follows the end of one. -/
def andChain : Parser (List Tree) := do
  let _ ← oneOf? ["TRANSACTION", "WORK"]
  if ← keyword? "AND" then
    let no ← keyword? "NO"
    keyword "CHAIN"
    pure (flagged (!no) " AND CHAIN")
  else pure []

/-- What follows `ROLLBACK`. -/
def rollback : Parser Tree := do
  let chained ← andChain
  let savepoint ← after? ["TO"] do
    let _ ← keyword? "SAVEPOINT"
    ident
  pure (.phrase ([.keyword "ROLLBACK"] ++ chained ++
    clause " TO SAVEPOINT " (savepoint.map .name)))

/-! ## Settings -/

/-- One value of a setting. When it cannot be read, the message is about the token where reading
stopped. -/
def settingValue (what : String) : Parser Tree :=
  fun rest =>
    match below.anyExpression rest with
    | .ok r => .ok r
    | .error f => expected what f.rest.head? f.rest

/-- A value of a setting, or a query for it. -/
def setting : Parser Tree := do
  if ← startsQuery then pure (.subquery (← below.query).tree) else settingValue below "variable value"

/-- The role that is set, from after `SET` and its modifier. -/
def setRole (modifier : Option String) : Parser Tree := do
  keyword "ROLE"
  let role ← if ← keyword? "NONE" then pure (Tree.keyword "NONE") else Tree.name <$> ident
  pure (.phrase [.keyword ("SET" ++ modifier.elim "" (" " ++ ·) ++ " ROLE "), role])

/-- The name of what is set. -/
def settingName : Parser (List Ident) := do
  if ← keywords? ["TIME", "ZONE"] then pure [.plain "TIMEZONE"] else dottedName

/-- What follows `SET`. -/
def setStatement : Parser Tree := do
  let modifier ← oneOf? ["SESSION", "LOCAL"]
  match ← attempt (setRole modifier) with
  | some t => pure t
  | none =>
    let local? := if modifier = some "LOCAL" then "LOCAL " else ""
    let name ← settingName
    let assigned ← if ← sign? "=" then pure true else keyword? "TO"
    let shown := Ident.renderDotted name
    if assigned then
      let settings ← items (setting below)
      pure (.phrase [.keyword ("SET " ++ local?), dotted name, .keyword " = ", commas settings])
    else if Text.sameName shown "TIMEZONE" then
      pure (.phrase [.keyword ("SET " ++ local? ++ "TIME ZONE "), ← settingValue below "timezone value"])
    else if shown = "CHARACTERISTICS" then
      keywords ["AS", "TRANSACTION"]
      pure (.phrase ([.keyword "SET SESSION CHARACTERISTICS AS TRANSACTION"] ++ (← modes)))
    else if shown = "TRANSACTION" ∧ modifier.isNone then
      if ← keyword? "SNAPSHOT" then
        pure (.phrase [.keyword "SET TRANSACTION SNAPSHOT ", ← value])
      else pure (.phrase ([.keyword "SET TRANSACTION"] ++ (← modes)))
    else unexpected "equals sign or TO"

/-! ## Statements -/

/-- What follows `CALL`. -/
def callStatement : Parser Tree := do
  let name ← dottedName
  let rest ← if ← nextIs (Token.isSign "(") then callRest below else pure []
  pure (.phrase [.keyword "CALL ", .call name rest])

/-- The statement that a keyword starts, from after the keyword; none if it starts none. -/
def statementAfter? (word : String) : Option (Parser Tree) :=
  match word with
  | "INSERT" => some (insert below)
  | "UPDATE" => some (update below)
  | "DELETE" => some (delete below)
  | "CALL" => some (callStatement below)
  | "SET" => some (setStatement below)
  | "START" =>
    some do
      keyword "TRANSACTION"
      pure (.phrase ([.keyword "START TRANSACTION"] ++ (← modes)))
  | "BEGIN" =>
    some do
      let kind ← oneOf? ["TRANSACTION", "WORK"]
      pure (.phrase ([.keyword "BEGIN"] ++ clause " " (kind.map .keyword) ++ (← modes)))
  | "COMMIT" => some do pure (.phrase ([.keyword "COMMIT"] ++ (← andChain)))
  | "END" => some do pure (.phrase ([.keyword "END"] ++ (← andChain)))
  | "ROLLBACK" => some rollback
  | "SAVEPOINT" => some do pure (.savepoint (← ident))
  | "RELEASE" =>
    some do
      let _ ← keyword? "SAVEPOINT"
      pure (.phrase [.keyword "RELEASE SAVEPOINT ", .name (← ident)])
  | "ASSERT" =>
    some do
      let condition ← below.anyExpression
      let message ← after? ["AS"] below.anyExpression
      pure (.phrase ([.keyword "ASSERT ", condition] ++ clause " AS " message))
  | _ => none

/-- The first token starts a query. -/
def isQueryStart : Token → Bool
  | .sign text => text = "("
  | .word text false => Text.keywordForm text ∈ ["SELECT", "WITH", "VALUES", "FROM"]
  | _ => false

/-- One statement. -/
def statement : Parser Query := do
  if ← nextIs isQueryStart then below.query
  else
    let found ← next
    match found with
    | some ⟨.word text false, _⟩ =>
      match statementAfter? below (Text.keywordForm text) with
      | some rest => pure ⟨← rest, none⟩
      | none => expected "an SQL statement" found
    | _ => expected "an SQL statement" found

end

/-! ## Nesting levels -/

/-- The number of nested statements, queries and expressions that can be read. -/
def maxLevels : Nat := 50

/-- The rules when so many nesting levels are left. -/
def level : Nat → Below
  | 0 => ⟨fun _ => tooDeep, tooDeep, tooDeep, tooDeep⟩
  | n + 1 =>
    let below := level n
    ⟨expression below, operand below, query below, tables below⟩

/-- Takes semicolons; tells whether there were any. -/
def semicolons : (fuel : Nat) → Parser Bool
  | 0 => pure false
  | fuel + 1 => do
    if ← sign? ";" then
      let _ ← semicolons fuel
      pure true
    else pure false

/-- The statements of a text. After a statement, a semicolon or the end has to follow; the word `END`
there ends the reading. -/
def statements (afterStatement : Bool) : (fuel : Nat) → Parser (List Query)
  | 0 => pure []
  | fuel + 1 => do
    let rest ← get
    let separated ← semicolons rest.length
    let unfinished := afterStatement && !separated
    match ← peek with
    | none => pure []
    | some p =>
      if unfinished then
        if p.token.isKeyword "END" then pure [] else unexpected "end of statement"
      else
        let s ← statement (level (maxLevels - 1))
        pure (s :: (← statements true fuel))

/-- The statements of a text, or the message of the first fault. -/
def parse (sql : String) : Except String (List Query) :=
  match lexemes sql.toList with
  | .error f =>
    .error (f.message ++ " at Line: " ++ toString f.location.line ++ ", Column: " ++
      toString f.location.column)
  | .ok ls =>
    let tokens := placed .start ls
    match statements false (tokens.length + 1) tokens with
    | .error f => .error f.message
    | .ok (ss, _) => .ok ss

end Grammar
end Sql
end Routine
