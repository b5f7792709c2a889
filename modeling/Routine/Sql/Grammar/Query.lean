import Routine.Sql.Grammar.Expression

/-!
# Queries and changes of data

A query is a chain of selections and lists of values, with common tables before it and an ordering,
limits and locks after it. `INSERT`, `UPDATE` and `DELETE` are here too, because a query with common
tables may be one.
-/

namespace Routine
namespace Sql
namespace Grammar

section

variable (below : Below)

/-! ## Results -/

/-- An alias, with or without `AS` before it. Without it the reserved words are none. -/
def alias? (reserved : List String) : Parser (Option Ident) := do
  let start ← get
  let afterAs ← keyword? "AS"
  let found ← next
  let nothing : Parser (Option Ident) :=
    if afterAs then expected "an identifier after AS" found
    else do
      set start
      pure none
  match found with
  | some ⟨.word text inQuotes, span⟩ =>
    if afterAs || inQuotes || !reserved.contains (Text.keywordForm text) then
      pure (some (identOf text inQuotes span))
    else nothing
  | some ⟨.string .plain text, _⟩ => pure (some (stringIdent text))
  | _ => nothing

/-- One result of a query, and the expression it is, if it is one without an alias. -/
def result : Parser (Tree × Option Tree) := do
  match ← star? with
  | some star => pure (star, none)
  | none =>
    let e ← below.anyExpression
    match e with
    | .identifier ⟨text, none, _⟩ =>
      if Text.sameName text "from" then
        fail ("Expected an expression, found: " ++ text ++ atPlace (← peek))
    | _ => pure ()
    match ← alias? notColumnAlias with
    | some id => pure (.phrase [e, .keyword " AS ", .name id], none)
    | none => pure (e, some e)

/-- The results that a change of data gives back. -/
def returning? : Parser (List Tree) := do
  match ← after? ["RETURNING"] (items (result below)) with
  | some results => pure (listClause " RETURNING " (results.map Prod.fst))
  | none => pure []

/-- A condition, if one follows. -/
def where? : Parser (Option Tree) := after? ["WHERE"] below.anyExpression

/-! ## Tables -/

/-- The columns of a table alias, each with its type if one is given. -/
def aliasColumns : Parser (List Tree) := do
  if ← nextIs (Token.isSign "(") then
    inParens (items do
      let id ← ident
      let t ← attempt type
      pure (.phrase ([.name id] ++ clause " " t)))
  else pure []

/-- The columns of a table alias between parentheses. -/
def columnsClause (columns : List Tree) : List Tree :=
  if columns.isEmpty then [] else [.keyword " (", commas columns, .keyword ")"]

/-- The alias of a table. -/
def tableAlias? : Parser (List Tree) := do
  match ← alias? notTableAlias with
  | some id => pure ([.keyword " AS ", .name id] ++ columnsClause (← aliasColumns))
  | none => pure []

/-- A query in the place of a table, from after its opening parenthesis. -/
def derivedTable (lead : String) : Parser Tree := do
  let q ← below.query
  sign ")"
  pure (.phrase ([.keyword (lead ++ "("), q.tree, .keyword ")"] ++ (← tableAlias?)))

/-- The arguments of a function in the place of a table, from after its opening parenthesis. -/
def tableArguments : Parser Tree := do
  if ← sign? ")" then pure (.keyword "()")
  else
    let args ← items (argument below)
    sign ")"
    pure (.phrase [.keyword "(", commas args, .keyword ")"])

/-- A join in the place of a table, from after its opening parenthesis. -/
def nestedTables : Parser Tree := do
  let inner ← below.tables
  if !inner.joined then unexpected "joined table"
  else
    sign ")"
    pure (.phrase ([.keyword "(", inner.tree, .keyword ")"] ++ (← tableAlias?)))

/-- A table with a name. -/
def namedTable : Parser Tree := do
  let name ← dottedName
  let args ← if ← sign? "(" then pure [← tableArguments below] else pure []
  let ordinality ← keywords? ["WITH", "ORDINALITY"]
  let shortName ← tableAlias?
  let start ← get
  let hints ←
    if ← keyword? "WITH" then
      if ← nextIs (Token.isSign "(") then
        let hints ← inParens (items below.anyExpression)
        pure [.keyword " WITH (", commas hints, .keyword ")"]
      else
        set start
        pure []
    else pure []
  pure (.phrase ([dotted name] ++ args ++ flagged ordinality " WITH ORDINALITY" ++ shortName ++ hints))

/-- A table, a function or a query that rows come from. -/
def table : Parser Tables := do
  let alone (t : Tree) : Tables := ⟨t, false⟩
  if ← keyword? "LATERAL" then
    if ← sign? "(" then alone <$> derivedTable below "LATERAL "
    else
      let name ← dottedName
      sign "("
      let args ← tableArguments below
      pure (alone (.phrase ([.keyword "LATERAL ", dotted name, args] ++ (← tableAlias?))))
  else if ← keyword? "TABLE" then
    let e ← inParens below.anyExpression
    pure (alone (.phrase ([.keyword "TABLE(", e, .keyword ")"] ++ (← tableAlias?))))
  else if ← sign? "(" then
    match ← attempt (derivedTable below "") with
    | some t => pure (alone t)
    | none => pure ⟨← nestedTables below, true⟩
  else if ← keyword? "UNNEST" then
    let arrays ← inParens (items below.anyExpression)
    let ordinality ← keywords? ["WITH", "ORDINALITY"]
    pure (alone (.phrase ([.keyword "UNNEST(", commas arrays, .keyword ")"] ++
      flagged ordinality " WITH ORDINALITY" ++ (← tableAlias?))))
  else alone <$> namedTable below

/-- The condition that tables are joined on. -/
def joinCondition : Parser (List Tree) := do
  if ← keyword? "ON" then pure [.keyword " ON ", ← below.anyExpression]
  else if ← keyword? "USING" then
    pure [.keyword " USING(", commaNames (← columnList false), .keyword ")"]
  else pure []

/-- How the next table is joined, in the words in which it is written; none if there is no next. -/
def joinWords (natural : Bool) : Parser (Option String) := do
  match ← oneOf? ["INNER", "JOIN", "LEFT", "RIGHT", "FULL"] with
  | some "JOIN" => pure (some "JOIN ")
  | some "INNER" =>
    keyword "JOIN"
    pure (some "JOIN ")
  | some "FULL" =>
    let _ ← keyword? "OUTER"
    keyword "JOIN"
    pure (some "FULL JOIN ")
  | some side =>
    match ← oneOf? ["OUTER", "SEMI", "ANTI", "JOIN"] with
    | some "JOIN" => pure (some (side ++ " JOIN "))
    | some "OUTER" =>
      keyword "JOIN"
      pure (some (side ++ " JOIN "))
    | some kind =>
      keyword "JOIN"
      pure (some (side ++ " " ++ kind ++ " JOIN "))
    | none => fail ("expected OUTER, SEMI, ANTI or JOIN after " ++ side)
  | none => if natural then unexpected "a join type after NATURAL" else pure none

/-- The tables joined to a table. -/
def joins : (fuel : Nat) → Parser (List Tree)
  | 0 => pure []
  | fuel + 1 => do
    if ← keyword? "CROSS" then
      match ← oneOf? ["JOIN", "APPLY"] with
      | some word =>
        let t ← table below
        pure ([.keyword (" CROSS " ++ word ++ " "), t.tree] ++ (← joins fuel))
      | none => unexpected "JOIN or APPLY after CROSS"
    else if ← keyword? "OUTER" then
      keyword "APPLY"
      let t ← table below
      pure ([.keyword " OUTER APPLY ", t.tree] ++ (← joins fuel))
    else
      let natural ← keyword? "NATURAL"
      match ← joinWords natural with
      | none => pure []
      | some words =>
        let t ← table below
        let condition ← if natural then pure [] else joinCondition below
        let lead := if natural then " NATURAL " else " "
        pure ([.keyword (lead ++ words), t.tree] ++ condition ++ (← joins fuel))

/-- A table with the tables joined to it. -/
def tables : Parser Tables := do
  let t ← table below
  let rest ← get
  let joined ← joins below rest.length
  pure ⟨.phrase (t.tree :: joined), t.joined || !joined.isEmpty⟩

/-- A list of tables. -/
def tableList : Parser (List Tree) := do
  pure ((← items (tables below)).map Tables.tree)

/-! ## Selections -/

/-- What makes rows distinct. -/
def distinct? : Parser (List Tree) := do
  let start ← peek
  let all ← keyword? "ALL"
  if ← keyword? "DISTINCT" then
    if all then fail ("Cannot specify both ALL and DISTINCT" ++ atPlace start)
    else if ← keyword? "ON" then
      let columns ← inParens do
        if ← nextIs (Token.isSign ")") then pure [] else items below.anyExpression
      pure [.keyword " DISTINCT ON (", commas columns, .keyword ")"]
    else pure [.keyword " DISTINCT"]
  else pure []

/-- A limit at the front of a selection. -/
def top? : Parser (List Tree) := do
  if ← keyword? "TOP" then
    let amount ←
      if ← nextIs (Token.isSign "(") then
        pure [.keyword " TOP (", ← inParens below.anyExpression, .keyword ")"]
      else pure [.keyword (" TOP " ++ toString (← natural))]
    let percent ← keyword? "PERCENT"
    let ties ← keywords? ["WITH", "TIES"]
    pure (amount ++ flagged percent " PERCENT" ++ flagged ties " WITH TIES")
  else pure []

/-- Where the results go. -/
def into? : Parser (List Tree) := do
  if ← keyword? "INTO" then
    let temporary := (← oneOf? ["TEMP", "TEMPORARY"]).isSome
    let unlogged ← keyword? "UNLOGGED"
    let isTable ← keyword? "TABLE"
    let name ← dottedName
    pure ([.keyword " INTO"] ++ flagged temporary " TEMPORARY" ++ flagged unlogged " UNLOGGED" ++
      flagged isTable " TABLE" ++ [.keyword " ", dotted name])
  else pure []

/-- What rows are grouped by. -/
def grouping? : Parser (List Tree) := do
  if ← keywords? ["GROUP", "BY"] then
    if ← keyword? "ALL" then pure [.keyword " GROUP BY ALL"]
    else
      let groups ← items do
        let start ← get
        if (← sign? "(") && (← sign? ")") then pure (.keyword "()")
        else
          set start
          below.anyExpression
      pure (listClause " GROUP BY " groups)
  else pure []

/-- A selection, from after `SELECT`. -/
def select : Parser Query := do
  let distinct ← distinct? below
  let top ← top? below
  let results ←
    if ← nextIs (Token.isKeyword "FROM") then pure []
    else items (result below)
  let into ← into?
  let from? ← after? ["FROM"] (tableList below)
  let condition ← where? below
  let groups ← grouping? below
  let having ← after? ["HAVING"] below.anyExpression
  let tree := Tree.phrase ([.keyword "SELECT"] ++ distinct ++ top ++
    listClause " " (results.map Prod.fst) ++ into ++ listClause " FROM " (from?.getD []) ++
    clause " WHERE " condition ++ groups ++ clause " HAVING " having)
  let single := match results with
    | [(_, single)] => if from?.isNone ∧ condition.isNone then single else none
    | _ => none
  pure ⟨tree, single⟩

/-- Rows of values, from after `VALUES`. -/
def values : Parser Tree := do
  let rows ← items do
    let isRow ← keyword? "ROW"
    pure (isRow, ← inParens (items below.anyExpression))
  let lead := if rows.any Prod.fst then "ROW(" else "("
  let rowTree (row : List Tree) : Tree := .phrase [.keyword lead, commas row, .keyword ")"]
  pure (.phrase [.keyword "VALUES ", commas (rows.map fun row => rowTree row.2)])

/-! ## Chains -/

/-- A query between parentheses, a selection or rows of values. -/
def link : Parser Query := do
  if ← keyword? "SELECT" then select below
  else if ← nextIs (Token.isSign "(") then
    let q ← inParens below.query
    pure ⟨.phrase [.keyword "(", q.tree, .keyword ")"], none⟩
  else if ← keyword? "VALUES" then pure ⟨← values below, none⟩
  else if ← keyword? "TABLE" then pure ⟨.phrase [.keyword "TABLE ", dotted (← dottedName)], none⟩
  else unexpected "SELECT, VALUES, or a subquery in the query body"

/-- Which rows of the two sides a chain keeps. -/
def quantifier : Parser String := do
  match ← firstOf [["DISTINCT", "BY", "NAME"], ["BY", "NAME"], ["ALL", "BY", "NAME"], ["ALL"], ["DISTINCT"]] with
  | some words => pure (" " ++ String.intercalate " " words)
  | none => pure ""

/-- The links after the first that the operators join to it; each right side is read by `right`. -/
def linked (operators : List (String × Parser Query)) : (fuel : Nat) → Query → Parser Query
  | 0, left => pure left
  | fuel + 1, left => do
    match ← oneOf? (operators.map Prod.fst) with
    | none => pure left
    | some op =>
      let kept ← quantifier
      let some right := operators.lookup op | pure left
      let right ← right
      linked operators fuel ⟨.phrase [left.tree, .keyword (" " ++ op ++ kept ++ " "), right.tree], none⟩

/-- A link and those that `INTERSECT` joins to it. -/
def intersection : Parser Query := do
  let first ← link below
  let rest ← get
  linked [("INTERSECT", link below)] rest.length first

/-- A chain of links. -/
def chain : Parser Query := do
  let first ← link below
  let rest ← get
  linked [("UNION", intersection below), ("EXCEPT", intersection below), ("MINUS", intersection below),
    ("INTERSECT", link below)] rest.length first

/-! ## Changes of data -/

/-- A column, or several, that get a value. -/
def assignment : Parser Tree := do
  let target ←
    if ← nextIs (Token.isSign "(") then
      let names ← inParens (items dottedName)
      pure (Tree.phrase [.keyword "(", commas (names.map dotted), .keyword ")"])
    else pure (dotted (← dottedName))
  sign "="
  pure (.phrase [target, .keyword " = ", ← below.anyExpression])

/-- What is done about a row that is there already. -/
def conflict? : Parser (List Tree) := do
  if ← keyword? "ON" then
    if ← keyword? "CONFLICT" then
      let target ←
        if ← keywords? ["ON", "CONSTRAINT"] then
          pure [.keyword " ON CONSTRAINT ", dotted (← dottedName)]
        else if ← nextIs (Token.isSign "(") then
          pure [.keyword "(", commaNames (← columnList false), .keyword ")"]
        else pure []
      keyword "DO"
      let action ←
        if ← keyword? "NOTHING" then pure [.keyword " DO NOTHING"]
        else
          keywords ["UPDATE", "SET"]
          let changes ← items (assignment below)
          let condition ← where? below
          pure (listClause " DO UPDATE SET " changes ++ clause " WHERE " condition)
      pure ([.keyword " ON CONFLICT"] ++ target ++ action)
    else
      keywords ["DUPLICATE", "KEY", "UPDATE"]
      pure (listClause " ON DUPLICATE KEY UPDATE " (← items (assignment below)))
  else pure []

/-- A query follows in parentheses. -/
def startsSubquery : Parser Bool :=
  fun rest =>
    match rest with
    | p :: ps => .ok (p.token.isSign "(" && startsWith ["SELECT"] ps, rest)
    | [] => .ok (false, rest)

/-- What follows `INSERT`. -/
def insert : Parser Tree := do
  let overwrite ← keyword? "OVERWRITE"
  let into ← keyword? "INTO"
  let isTable ← keyword? "TABLE"
  let name ← dottedName
  let shortName ← after? ["AS"] ident
  let source ←
    if ← keywords? ["DEFAULT", "VALUES"] then pure [Tree.keyword "DEFAULT VALUES"]
    else
      let columns ← if ← startsSubquery then pure [] else columnList true
      let q ← below.query
      let columns := if columns.isEmpty then [] else [.keyword "(", commaNames columns, .keyword ") "]
      pure (columns ++ [q.tree])
  let conflict ← conflict? below
  let returning ← returning? below
  pure (.phrase ([.keyword "INSERT"] ++ flagged overwrite " OVERWRITE" ++ flagged into " INTO" ++
    flagged isTable " TABLE" ++ [.keyword " ", dotted name] ++ clause " AS " (shortName.map .name) ++
    [.keyword " "] ++ source ++ conflict ++ returning))

/-- What follows `UPDATE`. -/
def update : Parser Tree := do
  let changed ← tables below
  let early ← after? ["FROM"] (tables below)
  keyword "SET"
  let changes ← items (assignment below)
  let late ← if early.isNone then after? ["FROM"] (tables below) else pure none
  let condition ← where? below
  let returning ← returning? below
  pure (.phrase ([.keyword "UPDATE ", changed.tree] ++ clause " FROM " (early.map Tables.tree) ++ listClause " SET " changes ++
    clause " FROM " (late.map Tables.tree) ++ clause " WHERE " condition ++ returning))

/-- What follows `DELETE`. -/
def delete : Parser Tree := do
  let named ←
    if ← keyword? "FROM" then pure []
    else
      let names ← items dottedName
      keyword "FROM"
      pure [commas (names.map dotted), .keyword " "]
  let sources ← tableList below
  let using? ← after? ["USING"] (tableList below)
  let condition ← where? below
  let returning ← returning? below
  let orders ← ordering? below " ORDER BY "
  let limit ← after? ["LIMIT"] below.anyExpression
  pure (.phrase ([.keyword "DELETE "] ++ named ++ listClause "FROM " sources ++
    listClause " USING " (using?.getD []) ++ clause " WHERE " condition ++ returning ++ orders ++
    clause " LIMIT " limit))

/-! ## Queries -/

/-- One common table. -/
def commonTable : Parser Tree := do
  let name ← ident
  let columns ←
    if ← keyword? "AS" then pure []
    else
      let columns ← aliasColumns
      keyword "AS"
      pure columns
  let kept ←
    if ← keyword? "MATERIALIZED" then pure "MATERIALIZED "
    else if ← keywords? ["NOT", "MATERIALIZED"] then pure "NOT MATERIALIZED "
    else pure ""
  let q ← inParens below.query
  let from? ← after? ["FROM"] ident
  pure (.phrase ([.name name] ++ columnsClause columns ++ [.keyword (" AS " ++ kept ++ "("), q.tree,
    .keyword ")"] ++ clause " FROM " (from?.map .name)))

/-- The limit and the offset, in either order. Each is read once; `LIMIT ALL` is no limit. -/
def limits : (fuel : Nat) → (limit offset : Option Tree) → Parser (Option Tree × Option Tree)
  | 0, limit, offset => pure (limit, offset)
  | fuel + 1, limit, offset => do
    let limit ←
      if limit.isNone then
        if ← keyword? "LIMIT" then
          if ← keyword? "ALL" then pure none else some <$> below.anyExpression
        else pure none
      else pure limit
    let offset ←
      if offset.isNone then
        if ← keyword? "OFFSET" then
          let n ← below.anyExpression
          let rows ← oneOf? ["ROWS", "ROW"]
          pure (some (Tree.phrase ([n] ++ clause " " (rows.map .keyword))))
        else pure none
      else pure offset
    limits fuel limit offset

/-- A limit in the words of the standard. -/
def fetch? : Parser (List Tree) := do
  if ← keyword? "FETCH" then
    let _ ← oneOf ["FIRST", "NEXT"]
    let amount ←
      if (← oneOf? ["ROW", "ROWS"]).isSome then pure []
      else
        let n ← value
        let percent ← keyword? "PERCENT"
        let _ ← oneOf ["ROW", "ROWS"]
        pure ([n] ++ flagged percent " PERCENT" ++ [.keyword " "])
    let ending ←
      if ← keyword? "ONLY" then pure "ROWS ONLY"
      else if ← keywords? ["WITH", "TIES"] then pure "ROWS WITH TIES"
      else unexpected "one of ONLY or WITH TIES"
    pure ([.keyword " FETCH FIRST "] ++ amount ++ [.keyword ending])
  else pure []

/-- The locks on the rows of a query. -/
def locks : (fuel : Nat) → Parser (List Tree)
  | 0 => pure []
  | fuel + 1 => do
    if ← keyword? "FOR" then
      let kind ← oneOf ["UPDATE", "SHARE"]
      let of? ← after? ["OF"] dottedName
      let waiting ←
        if ← keyword? "NOWAIT" then pure " NOWAIT"
        else if ← keywords? ["SKIP", "LOCKED"] then pure " SKIP LOCKED"
        else pure ""
      pure ([.keyword (" FOR " ++ kind)] ++ clause " OF " (of?.map dotted) ++
        flagged (!waiting.isEmpty) waiting ++ (← locks fuel))
    else pure []

/-- A query. -/
def query : Parser Query := do
  let common ←
    if ← keyword? "WITH" then
      let recursive ← keyword? "RECURSIVE"
      let ctes ← items (commonTable below)
      pure ([.keyword "WITH "] ++ flagged recursive "RECURSIVE " ++ [commas ctes, .keyword " "])
    else pure []
  if ← keyword? "INSERT" then pure ⟨.phrase (common ++ [← insert below]), none⟩
  else if ← keyword? "UPDATE" then pure ⟨.phrase (common ++ [← update below]), none⟩
  else
    let body ← chain below
    let orders ← ordering? below " ORDER BY "
    let (limit, offset) ← limits below 2 none none
    let fetch ← fetch?
    let rest ← get
    let locked ← locks rest.length
    pure ⟨.phrase (common ++ [body.tree] ++ orders ++ clause " LIMIT " limit ++
      clause " OFFSET " offset ++ fetch ++ locked), if common.isEmpty then body.single else none⟩

end

end Grammar
end Sql
end Routine
