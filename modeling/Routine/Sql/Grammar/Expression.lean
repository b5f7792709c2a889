import Routine.Sql.Grammar.Keyword
import Routine.Sql.Grammar.Type

/-!
# Expressions

An expression is an operand with operators around it, read by precedence: the rule for a precedence
takes infix operators that bind more tightly than it and stops before the first that does not. A
keyword that starts a special form is first read as that form, and as a plain name when the form
cannot be read.

Rules that need other rules one nesting level further down take them from a record, `Below`. The
levels themselves are built elsewhere, so no rule here calls itself except to repeat.
-/

namespace Routine
namespace Sql
namespace Grammar

/-- A parsed query or statement. When it does nothing but select one expression, `single` is that
expression. -/
structure Query where
  tree : Tree
  single : Option Tree

/-- A table, with the tables joined to it if there are any. -/
structure Tables where
  tree : Tree
  /-- There is a join, here or directly inside the parentheses. -/
  joined : Bool

/-- The rules one nesting level further down. -/
structure Below where
  /-- An expression whose operators bind more tightly than the precedence. -/
  expression : (precedence : Nat) → Parser Tree
  /-- An operand. -/
  operand : Parser Tree
  query : Parser Query
  /-- A table with the tables joined to it. -/
  tables : Parser Tables

namespace Below

variable (below : Below)

/-- An expression with any operators. -/
def anyExpression : Parser Tree := below.expression 0

end Below

/-! ## Precedences -/

/-- Operators that bind like comparisons. -/
def comparisons : List String :=
  ["=", "<", "<=", "<>", ">", ">=", "==", "~", "~*", "!~", "!~*", "~~", "~~*", "!~~", "!~~*", "<=>"]

/-- Operators without a place of their own in the table of precedences. -/
def otherOperators : List String :=
  ["->", "->>", "#>", "#>>", "@>", "<@", "#-", "@?", "@@", "?", "?&", "?|", "&&", "^@", "||", "#",
   ">>", "<<", "|", "&"]

/-- How tightly the operator binds that the tokens start with; zero if they start with none. -/
def precedence (rest : List Placed) : Nat :=
  match rest.map Placed.token with
  | .custom _ :: _ => 70
  | .sign text :: _ =>
    if text = "." then 200
    else if text = "::" then 140
    else if text = "[" then 130
    else if text = "^" then 100
    else if text ∈ ["*", "/", "%"] then 90
    else if text ∈ ["+", "-"] then 80
    else if text ∈ otherOperators ∨ text = "!" then 70
    else if text ∈ comparisons then 50
    else 0
  | .word value false :: _ =>
    match Text.keywordForm value with
    | "COLLATE" => 120
    | "AT" => if startsWith ["AT", "TIME", "ZONE"] rest then 110 else 0
    | "DIV" => 90
    | "XOR" => 75
    | "IN" | "BETWEEN" | "LIKE" | "ILIKE" | "SIMILAR" | "REGEXP" | "RLIKE" | "OVERLAPS" | "OPERATOR" => 60
    | "NOT" =>
      if ["IN", "BETWEEN", "LIKE", "ILIKE", "SIMILAR", "REGEXP", "RLIKE"].any
        fun w => startsWith ["NOT", w] rest then 60 else 0
    | "IS" => 40
    | "AND" => 20
    | "OR" => 10
    | _ => 0
  | _ => 0

/-- The precedence above which the bounds of a range and the patterns of `LIKE` are read. -/
def rangePrecedence : Nat := 60

section

variable (below : Below)

/-! ## Constants -/

/-- The constant that a token is by itself. -/
def literal? : Token → Option Literal
  | .number digits long => some (.number digits long)
  | .string kind value => some (.string kind value)
  | .dollar tag value => some (.dollar tag value)
  | .placeholder text => some (.placeholder text)
  | _ => none

/-- A constant. -/
def value : Parser Tree := do
  let found ← next
  match found with
  | some ⟨.word text false, _⟩ =>
    match Text.keywordForm text with
    | "TRUE" => pure (.literal (.bool true))
    | "FALSE" => pure (.literal (.bool false))
    | "NULL" => pure (.literal .null)
    | _ => expected "a concrete value" found
  | some ⟨.sign ":", _⟩ =>
    let found ← next
    match found with
    | some ⟨.word text _, _⟩ => pure (.literal (.placeholder (":" ++ text)))
    | some ⟨.number digits false, _⟩ => pure (.literal (.placeholder (":" ++ digits)))
    | _ => expected "placeholder" found
  | some p =>
    match literal? p.token with
    | some v => pure (.literal v)
    | none => expected "a value" found
  | none => expected "a value" found

/-- The text of a string. A word that is no keyword counts as one. -/
def literalText : Parser String := do
  let found ← next
  match found with
  | some ⟨.word text inQuotes, _⟩ =>
    if inQuotes || !isKeyword (Text.keywordForm text) then pure text
    else expected "literal string" found
  | some ⟨.string .plain text, _⟩ => pure text
  | some ⟨.string .escaped text, _⟩ => pure text
  | some ⟨.string .unicode text, _⟩ => pure text
  | _ => expected "literal string" found

/-- A part of a date or time. -/
def timeField : Parser Tree := do
  let found ← next
  match found with
  | some ⟨.word text inQuotes, span⟩ =>
    let word := if inQuotes then "" else Text.keywordForm text
    if word ∈ intervalUnits ∨ word ∈ otherUnits then pure (.keyword word)
    else pure (.name (identOf text inQuotes span))
  | some ⟨.string .plain text, _⟩ => pure (.name (stringIdent text))
  | _ => expected "date/time field" found

/-- What follows `INTERVAL`: an operand, and the units that it is counted in. -/
def interval : Parser Tree := do
  let amount ← below.operand
  let unit ← oneOf? intervalUnits
  let head := [.keyword "INTERVAL ", amount] ++ clause " " (unit.map .keyword)
  if unit = some "SECOND" then
    if ← sign? "(" then
      let n ← natural
      let fraction ← if ← sign? "," then pure (", " ++ toString (← natural)) else pure ""
      sign ")"
      pure (.phrase (head ++ [.keyword (" (" ++ toString n ++ fraction ++ ")")]))
    else pure (.phrase head)
  else
    let length ← length?
    let head := head ++ flagged (!length.isEmpty) (" " ++ length)
    if ← keyword? "TO" then
      let last ← timeField
      let fraction ← match last with
        | .keyword "SECOND" => length?
        | _ => pure ""
      pure (.phrase (head ++ [.keyword " TO ", last] ++ flagged (!fraction.isEmpty) (" " ++ fraction)))
    else pure (.phrase head)

/-- A type and the text of a constant of that type. -/
def typedLiteral : Parser Tree := do
  let t ← type
  match t with
  | .builtin "INTERVAL" => interval below
  | .custom _ _ => fail "a constant of a named type"
  | t =>
    let text ← literalText
    pure (.phrase [t, .keyword " ", .literal (.string .plain text)])

/-! ## Arguments -/

/-- The names before a star, from the text after the first of them; none if there is no star. -/
def qualifiedStar (ids : List Ident) : (fuel : Nat) → Parser (Option (List Ident))
  | 0 => pure none
  | fuel + 1 => do
    if ← sign? "." then
      let found ← next
      match found with
      | some ⟨.word text inQuotes, span⟩ => qualifiedStar (ids ++ [identOf text inQuotes span]) fuel
      | some ⟨.string .plain text, _⟩ => qualifiedStar (ids ++ [stringIdent text]) fuel
      | some ⟨.sign "*", _⟩ => pure (some ids)
      | _ => expected "an identifier or a '*' after '.'" found
    else pure none

/-- All columns, of everything or of one table. -/
def star? : Parser (Option Tree) := do
  let start ← get
  let orNothing (ids : List Ident) : Parser (Option Tree) := do
    match ← qualifiedStar ids start.length with
    | some ids => pure (some (.phrase [dotted ids, .keyword ".*"]))
    | none =>
      set start
      pure none
  match ← next with
  | some ⟨.sign "*", _⟩ => pure (some (.keyword "*"))
  | some ⟨.word text inQuotes, span⟩ => orNothing [identOf text inQuotes span]
  | some ⟨.string .plain text, _⟩ => orNothing [stringIdent text]
  | _ =>
    set start
    pure none

/-- All columns, or an expression. -/
def starOrExpression : Parser Tree := do
  match ← star? with
  | some star => pure star
  | none => below.anyExpression

/-- The sign between the name of an argument and its value. -/
def argumentSign : Parser String := do
  if ← keyword? "VALUE" then pure " VALUE "
  else if ← sign? "=>" then pure " => "
  else if ← sign? ":" then pure " : "
  else unexpected "argument operator"

/-- One argument of a function, with or without its name. -/
def argument : Parser Tree := do
  let named ← attempt do
    let name ← below.anyExpression
    let mark ← argumentSign
    let value ← starOrExpression below
    pure (Tree.phrase [name, .keyword mark, value])
  match named with
  | some t => pure t
  | none => starOrExpression below

/-- One item of an ordering. -/
def ordering : Parser Tree := do
  let e ← below.anyExpression
  let direction ← oneOf? ["ASC", "DESC"]
  let nulls ←
    if ← keywords? ["NULLS", "FIRST"] then pure " NULLS FIRST"
    else if ← keywords? ["NULLS", "LAST"] then pure " NULLS LAST"
    else pure ""
  pure (.phrase ([e] ++ clause " " (direction.map .keyword) ++ flagged (!nulls.isEmpty) nulls))

/-- An ordering, if one follows. -/
def ordering? (lead : String) : Parser (List Tree) := do
  match ← after? ["ORDER", "BY"] (items (ordering below)) with
  | some orders => pure (listClause lead orders)
  | none => pure []

/-- The arguments of a function, from after the opening parenthesis. -/
def arguments : Parser (List Tree) := do
  if ← sign? ")" then pure [.keyword "()"]
  else
    let start ← peek
    let all ← keyword? "ALL"
    let distinct ← keyword? "DISTINCT"
    if all && distinct then fail ("Cannot specify both ALL and DISTINCT" ++ atPlace start)
    let args ← items (argument below)
    let orders ← ordering? below " ORDER BY "
    let limit ← after? ["LIMIT"] below.anyExpression
    sign ")"
    pure ([.keyword "("] ++ flagged all "ALL " ++ flagged distinct "DISTINCT " ++ [commas args] ++
      orders ++ clause " LIMIT " limit ++ [.keyword ")"])

/-- The window that a function is applied over, after `OVER`. -/
def window : Parser Tree := do
  if ← sign? "(" then
    let partitions ← after? ["PARTITION", "BY"] (items below.anyExpression)
    let orders ← ordering? below "ORDER BY "
    sign ")"
    let parts := [listClause "PARTITION BY " (partitions.getD []), orders].filter (!·.isEmpty)
    pure (.phrase ([.keyword "("] ++ separated " " (parts.map .phrase) ++ [.keyword ")"]))
  else pure (.name (← ident))

/-- What follows the name of a function: its arguments, and what qualifies the call. -/
def callRest : Parser (List Tree) := do
  sign "("
  let args ← arguments below
  let within ← after? ["WITHIN", "GROUP"] (inParens do
    keywords ["ORDER", "BY"]
    items (ordering below))
  let filter ←
    if ← keyword? "FILTER" then
      if ← sign? "(" then
        if ← keyword? "WHERE" then
          let e ← below.anyExpression
          sign ")"
          pure [.keyword " FILTER (WHERE ", e, .keyword ")"]
        else pure []
      else pure []
    else pure []
  let nulls ← oneOf? ["RESPECT", "IGNORE"]
  if nulls.isSome then keyword "NULLS"
  let frame ← after? ["OVER"] (window below)
  let within := match within with
    | some orders => [.keyword " WITHIN GROUP (ORDER BY ", commas orders, .keyword ")"]
    | none => []
  pure (args ++ within ++ filter ++ clause " " (nulls.map fun w => .keyword (w ++ " NULLS")) ++
    clause " OVER " frame)

/-! ## Special forms -/

/-- A query between parentheses. -/
def queryInParens : Parser Tree := do
  pure (← inParens below.query).tree

/-- The next token starts a query. -/
def startsQuery : Parser Bool := do
  pure ((← nextIs (Token.isKeyword "SELECT")) || (← nextIs (Token.isKeyword "WITH")))

/-- The branches of a `CASE`, each after its `WHEN`. -/
def branches : (fuel : Nat) → Parser (List Tree)
  | 0 => pure []
  | fuel + 1 => do
    let condition ← below.anyExpression
    keyword "THEN"
    let result ← below.anyExpression
    let branch := [.keyword " WHEN ", condition, .keyword " THEN ", result]
    if ← keyword? "WHEN" then pure (branch ++ (← branches fuel)) else pure branch

/-- What follows `CASE`. -/
def caseForm : Parser Tree := do
  let operand ←
    if ← keyword? "WHEN" then pure none
    else
      let e ← below.anyExpression
      keyword "WHEN"
      pure (some e)
  let rest ← get
  let whens ← branches below (rest.length + 1)
  let otherwise ← after? ["ELSE"] below.anyExpression
  keyword "END"
  pure (.phrase ([.keyword "CASE"] ++ clause " " operand ++ whens ++ clause " ELSE " otherwise ++
    [.keyword " END"]))

/-- What follows `CAST`. -/
def castForm (word : String) : Parser Tree :=
  inParens do
    let e ← below.anyExpression
    keyword "AS"
    let t ← type
    let layout ← after? ["FORMAT"] value
    pure (.phrase ([.keyword (word ++ "("), e, .keyword " AS ", t] ++ clause " FORMAT " layout ++
      [.keyword ")"]))

/-- What follows `EXTRACT`. -/
def extractForm : Parser Tree :=
  inParens do
    let field ← timeField
    if !(← keyword? "FROM") then fail "Expected 'FROM' or ','"
    let e ← below.anyExpression
    pure (.phrase [.keyword "EXTRACT(", field, .keyword " FROM ", e, .keyword ")"])

/-- What follows `CEIL` or `FLOOR`. -/
def roundingForm (word : String) : Parser Tree :=
  inParens do
    let e ← below.anyExpression
    let unit ←
      if ← keyword? "TO" then pure [.keyword " TO ", ← timeField]
      else if ← sign? "," then
        match ← value with
        | .literal (.number digits long) => pure [.keyword ", ", .literal (.number digits long)]
        | _ => fail "Scale field can only be of number type"
      else pure []
    pure (.phrase ([.keyword (word ++ "("), e] ++ unit ++ [.keyword ")"]))

/-- What follows `POSITION`. -/
def positionForm (id : Ident) : Parser Tree := do
  let found ← attempt (inParens do
    let piece ← below.expression rangePrecedence
    keyword "IN"
    let text ← below.anyExpression
    pure (Tree.phrase [.keyword "POSITION(", piece, .keyword " IN ", text, .keyword ")"]))
  match found with
  | some t => pure t
  | none => pure (.call [id] (← callRest below))

/-- What follows `SUBSTRING`. -/
def substringForm : Parser Tree :=
  inParens do
    let text ← below.anyExpression
    let byCommas ← sign? ","
    let start ←
      if byCommas then pure (some (← below.anyExpression))
      else after? ["FROM"] below.anyExpression
    let length ←
      if ← keyword? "FOR" then pure (some (← below.anyExpression))
      else if ← sign? "," then pure (some (← below.anyExpression))
      else pure none
    let (leadStart, leadLength) := if byCommas then (", ", ", ") else (" FROM ", " FOR ")
    pure (.phrase ([.keyword "SUBSTRING(", text] ++ clause leadStart start ++ clause leadLength length ++
      [.keyword ")"]))

/-- What follows `OVERLAY`. -/
def overlayForm : Parser Tree :=
  inParens do
    let text ← below.anyExpression
    keyword "PLACING"
    let piece ← below.anyExpression
    keyword "FROM"
    let start ← below.anyExpression
    let length ← after? ["FOR"] below.anyExpression
    pure (.phrase ([.keyword "OVERLAY(", text, .keyword " PLACING ", piece, .keyword " FROM ", start] ++
      clause " FOR " length ++ [.keyword ")"]))

/-- What follows `TRIM`. -/
def trimForm : Parser Tree := do
  sign "("
  let side ← oneOf? ["BOTH", "LEADING", "TRAILING"]
  let first ← below.anyExpression
  let rest ←
    if ← keyword? "FROM" then pure [.keyword " FROM ", ← below.anyExpression]
    else
      let _ ← sign? ","
      pure []
  sign ")"
  pure (.phrase ([.keyword "TRIM("] ++ flagged side.isSome (side.getD "" ++ " ") ++ [first] ++ rest ++
    [.keyword ")"]))

/-- The items of an array, from after the opening bracket. -/
def arrayItems : Parser Tree := do
  let values ← if ← nextIs (Token.isSign "]") then pure [] else items below.anyExpression
  sign "]"
  pure (commas values)

/-- What follows `EXISTS`. -/
def existsForm (lead : String) : Parser Tree := do
  let q ← queryInParens below
  pure (.phrase [.keyword (lead ++ "EXISTS ("), q, .keyword ")"])

/-- The special form that a keyword starts, from after the keyword; none if it starts none here. -/
def specialForm (word : String) (id : Ident) : Parser (Option Tree) := do
  match word with
  | "TRUE" => pure (some (.literal (.bool true)))
  | "FALSE" => pure (some (.literal (.bool false)))
  | "NULL" => pure (some (.literal .null))
  | "CURRENT_CATALOG" | "CURRENT_USER" | "SESSION_USER" | "USER" => pure (some (.call [id] []))
  | "CURRENT_TIMESTAMP" | "CURRENT_TIME" | "CURRENT_DATE" | "LOCALTIME" | "LOCALTIMESTAMP" =>
    if ← sign? "(" then pure (some (.call [id] (← arguments below))) else pure (some (.call [id] []))
  | "CASE" => some <$> caseForm below
  | "CAST" | "TRY_CAST" | "SAFE_CAST" => some <$> castForm below word
  | "EXISTS" => some <$> existsForm below ""
  | "EXTRACT" => some <$> extractForm below
  | "CEIL" | "FLOOR" => some <$> roundingForm below word
  | "POSITION" => if ← nextIs (Token.isSign "(") then some <$> positionForm below id else pure none
  | "SUBSTRING" => some <$> substringForm below
  | "OVERLAY" => some <$> overlayForm below
  | "TRIM" => some <$> trimForm below
  | "INTERVAL" => some <$> interval below
  | "ARRAY" =>
    if ← sign? "[" then
      pure (some (.phrase [.keyword "ARRAY[", ← arrayItems below, .keyword "]"]))
    else if ← nextIs (Token.isSign "(") then
      let q ← queryInParens below
      pure (some (.call [id] [.keyword "(", q, .keyword ")"]))
    else pure none
  | "NOT" =>
    if ← keyword? "EXISTS" then some <$> existsForm below "NOT "
    else pure (some (.unary "NOT" (← below.expression 30)))
  | _ => pure none

/-! ## Operands -/

/-- What a word is when it starts no special form: a function call, or a name. -/
def plainWord (id : Ident) : Parser Tree := do
  match ← peek with
  | some ⟨.sign "(", _⟩ => pure (.call [id] (← callRest below))
  | some ⟨.string kind text, _⟩ =>
    if (kind = .plain ∨ kind = .hex) ∧ id.value.toList.head? = some '_' then
      let _ ← next
      pure (.phrase [.keyword id.value, .keyword " ", .literal (.string kind text)])
    else pure (.identifier id)
  | _ => pure (.identifier id)

/-- The operand that a word starts. -/
def wordOperand (word : String) (id : Ident) : Parser Tree :=
  fun rest =>
    match specialForm below word id rest with
    | .ok (some t, rest) => .ok (t, rest)
    | .ok (none, _) => plainWord below id rest
    | .error f =>
      if word ∈ notIdentifier then .error f
      else
        match plainWord below id rest with
        | .ok r => .ok r
        | .error _ => .error f

/-- What follows an opening parenthesis: a query, an expression or several. -/
def parenthesized : Parser Tree := do
  let inner ←
    if ← startsQuery then pure (Tree.subquery (← below.query).tree)
    else
      match ← items below.anyExpression with
      | [e] => pure (Tree.nested e)
      | es => pure (Tree.phrase [.keyword "(", commas es, .keyword ")"])
  sign ")"
  pure inner

/-- An operand that is no typed literal. -/
def plainOperand : Parser Tree := do
  let start ← get
  let found ← next
  match found with
  | some ⟨.word text inQuotes, span⟩ =>
    wordOperand below (if inQuotes then "" else Text.keywordForm text) (identOf text inQuotes span)
  | some ⟨.sign "[", _⟩ => pure (.phrase [.keyword "[", ← arrayItems below, .keyword "]"])
  | some ⟨.sign "(", _⟩ => parenthesized below
  | some ⟨.sign ":", _⟩ =>
    set start
    value
  | some ⟨.sign op, _⟩ =>
    if op ∈ ["+", "-"] then pure (.unary op (← below.expression 90))
    else if op ∈ ["!!", "|/", "||/", "@", "~"] then pure (.unary op (← below.expression 80))
    else expected "an expression" found
  | some p =>
    match literal? p.token with
    | some v => pure (.literal v)
    | none => expected "an expression" found
  | none => expected "an expression" found

/-- An operand. -/
def operand : Parser Tree := do
  match ← attempt (typedLiteral below) with
  | some t => pure t
  | none =>
    let e ← plainOperand below
    match ← after? ["COLLATE"] dottedName with
    | some collation => pure (.phrase [e, .keyword " COLLATE ", dotted collation])
    | none => pure e

/-! ## Members and elements -/

/-- A member that is taken from an expression. -/
def dot (e : Tree) : Tree := .phrase [.keyword ".", e]

/-- The name of a member, if it is given by its name. -/
def dotName? : Tree → Option Ident
  | .phrase [.keyword ".", .identifier id] => some id
  | _ => none

/-- The function that is called in the place of a member. -/
def dotCall? : Tree → Option (List Ident × List Tree)
  | .phrase [.keyword ".", .call function rest] => some (function, rest)
  | _ => none

/-- An expression with members and elements taken from it. Names alone make a dotted name, and names
before a call make the dotted name of a function. -/
def assemble (root : Tree) (steps : List Tree) : Tree :=
  if steps.isEmpty then root
  else
    match root with
    | .identifier id =>
      match steps.mapM dotName?, steps.dropLast.mapM dotName?, steps.getLast?.bind dotCall? with
      | some ids, _, _ => .compound (id :: ids)
      | none, some ids, some (function, rest) => .call (id :: ids ++ function) rest
      | _, _, _ => .access root steps
    | _ => .access root steps

/-- What stands between brackets, from after the opening one: an index or a slice. -/
def subscript : Parser Tree := do
  let lower ← if ← sign? ":" then pure none else some <$> below.anyExpression
  let close (parts : List Tree) : Tree := .phrase ([.keyword "["] ++ parts ++ [.keyword "]"])
  let low := lower.toList
  if ← sign? "]" then
    pure (close (if lower.isSome then low else [.keyword ":"]))
  else
    if lower.isSome then sign ":"
    if ← sign? "]" then pure (close (low ++ [.keyword ":"]))
    else
      let upper ← below.anyExpression
      let slice := low ++ [.keyword ":", upper]
      if ← sign? "]" then pure (close slice)
      else
        sign ":"
        if ← sign? "]" then pure (close slice)
        else
          let stride ← below.anyExpression
          sign "]"
          pure (close (slice ++ [.keyword ":", stride]))

/-- The members and elements that are taken, and whether a star ends them. -/
def steps : (fuel : Nat) → Parser (List Tree × Bool)
  | 0 => pure ([], false)
  | fuel + 1 => do
    if ← sign? "." then
      match ← peek with
      | some ⟨.sign "*", _⟩ =>
        let _ ← next
        pure ([], true)
      | some ⟨.string .plain text, _⟩ =>
        let _ ← next
        let (more, star) ← steps fuel
        pure (dot (.identifier (stringIdent text)) :: more, star)
      | _ =>
        let first := match ← below.expression 200 with
          | .access root inner => dot root :: inner
          | .compound ids => ids.map fun id => dot (.identifier id)
          | e => [dot e]
        let (more, star) ← steps fuel
        pure (first ++ more, star)
    else if ← sign? "[" then
      let first ← subscript below
      let (more, star) ← steps fuel
      pure (first :: more, star)
    else pure ([], false)

/-- An operand with the members and elements that are taken from it. -/
def accessed : Parser Tree := do
  let root ← operand below
  let rest ← get
  let (taken, star) ← steps below rest.length
  if star then
    match root, taken.mapM dotName? with
    | .identifier id, some ids => pure (.phrase [dotted (id :: ids), .keyword ".*"])
    | _, _ => unexpected "an identifier or a '*' after '.'"
  else pure (assemble root taken)

/-! ## Operators -/

/-- The forms after `IS` that take no operand. -/
def isForms : List (List String) :=
  [["NOT", "NULL"], ["TRUE"], ["NOT", "TRUE"], ["FALSE"], ["NOT", "FALSE"], ["UNKNOWN"],
   ["NOT", "UNKNOWN"]]

/-- Takes the first of the forms that is next. -/
def firstOf : List (List String) → Parser (Option (List String))
  | [] => pure none
  | words :: more => do
    if ← keywords? words then pure (some words) else firstOf more

/-- What follows `IS`. -/
def isForm (e : Tree) : Parser Tree := do
  if ← keyword? "NULL" then pure (.isNull e)
  else
    match ← firstOf isForms with
    | some words => pure (.phrase [e, .keyword (" IS " ++ String.intercalate " " words)])
    | none =>
      if ← keywords? ["DISTINCT", "FROM"] then
        pure (.phrase [e, .keyword " IS DISTINCT FROM ", ← below.anyExpression])
      else if ← keywords? ["NOT", "DISTINCT", "FROM"] then
        pure (.phrase [e, .keyword " IS NOT DISTINCT FROM ", ← below.anyExpression])
      else
        let not := if ← keyword? "NOT" then "NOT " else ""
        let form ← oneOf? ["NFC", "NFD", "NFKC", "NFKD"]
        if ← keyword? "NORMALIZED" then
          pure (.phrase [e, .keyword (" IS " ++ not ++ form.elim "" (· ++ " ") ++ "NORMALIZED")])
        else
          unexpected "[NOT] NULL | TRUE | FALSE | DISTINCT | [form] NORMALIZED FROM after IS"

/-- What follows `IN`. -/
def inForm (e : Tree) (lead : String) : Parser Tree := do
  if ← keyword? "UNNEST" then
    let set ← inParens below.anyExpression
    pure (.phrase [e, .keyword (lead ++ "IN UNNEST("), set, .keyword ")"])
  else
    let set ← inParens do
      if ← startsQuery then pure (← below.query).tree
      else commas <$> items below.anyExpression
    pure (.phrase [e, .keyword (lead ++ "IN ("), set, .keyword ")"])

/-- A pattern, and the character that escapes in it. -/
def patternForm (e : Tree) (lead : String) : Parser Tree := do
  let pattern ← below.expression rangePrecedence
  let escape ← after? ["ESCAPE"] literalText
  pure (.phrase ([e, .keyword lead, pattern] ++
    clause " ESCAPE " (escape.map fun c => .keyword ("'" ++ c ++ "'"))))

/-- What follows an expression that a word like `IN` or `LIKE`, or `NOT` before one, relates to
something. -/
def relationForm (e : Tree) : Parser Tree := do
  let lead := if ← keyword? "NOT" then " NOT " else " "
  match ← oneOf? ["REGEXP", "RLIKE", "IN", "BETWEEN", "LIKE", "ILIKE"] with
  | some "IN" => inForm below e lead
  | some "BETWEEN" =>
    let low ← below.expression rangePrecedence
    keyword "AND"
    let high ← below.expression rangePrecedence
    pure (.phrase [e, .keyword (lead ++ "BETWEEN "), low, .keyword " AND ", high])
  | some "LIKE" =>
    let any := if ← keyword? "ANY" then "ANY " else ""
    patternForm below e (lead ++ "LIKE " ++ any)
  | some "ILIKE" =>
    let any := if ← keyword? "ANY" then "ANY" else ""
    patternForm below e (lead ++ "ILIKE " ++ any)
  | some word =>
    pure (.phrase [e, .keyword (lead ++ word ++ " "), ← below.expression rangePrecedence])
  | none =>
    if ← keywords? ["SIMILAR", "TO"] then patternForm below e (lead ++ "SIMILAR TO ")
    else unexpected "IN or BETWEEN after NOT"

/-- The comparison of an expression with some or all of several values. -/
def quantified (e : Tree) (op word : String) (level : Nat) (here : Option Placed) : Parser Tree := do
  let start ← get
  sign "("
  let right ←
    if ← startsQuery then
      set start
      below.expression level
    else
      let e ← below.expression level
      sign ")"
      pure e
  if op ∈ [">", "<", ">=", "<=", "=", "<>"] then
    let inner := match right with
      | .subquery q => q
      | e => e
    pure (.phrase [e, .keyword (" " ++ op ++ " " ++ word ++ "("), inner, .keyword ")"])
  else
    fail ("Expected one of [=, >, <, =>, =<, !=] as comparison operator, found: " ++ op ++ atPlace here)

/-- The operator that a token spells. -/
def operator? : Token → Option String
  | .custom text => some text
  | .sign text =>
    if text = "==" then some "="
    else if text ∈ comparisons ∨ text ∈ otherOperators ∨ text ∈ ["^", "*", "/", "%", "+", "-"] then some text
    else none
  | .word value false =>
    let word := Text.keywordForm value
    if word ∈ ["AND", "OR", "XOR", "OVERLAPS"] then some word else none
  | _ => none

/-- The dotted name of an operator, as far as the tokens go. -/
def operatorName : (fuel : Nat) → Parser String
  | 0 => pure ""
  | fuel + 1 => do
    let text := match ← next with
      | some p => p.token.display
      | none => "EOF"
    if ← sign? "." then pure (text ++ "." ++ (← operatorName fuel)) else pure text

/-- What an operator makes of the expression before it. The operator binds with `level`. -/
def infixed (e : Tree) (level : Nat) : Parser Tree := do
  let start ← get
  let found ← next
  let binary (op : String) : Parser Tree := do
    match ← oneOf? ["ANY", "ALL", "SOME"] with
    | some word => quantified below e op word level found
    | none => pure (.binary op e (← below.expression level))
  match found with
  | some ⟨.sign "::", _⟩ => pure (.cast e (← type))
  | some ⟨.sign "!", _⟩ => pure (.unary "!" e)
  | some ⟨.sign "[", _⟩ => fail ("No infix parser for token LBracket" ++ atPlace found)
  | some p =>
    match operator? p.token with
    | some op => binary op
    | none =>
      match p.token with
      | .word text false =>
        match Text.keywordForm text with
        | "IS" => isForm below e
        | "AT" =>
          keywords ["TIME", "ZONE"]
          pure (.phrase [e, .keyword " AT TIME ZONE ", ← below.expression level])
        | "OPERATOR" =>
          let name ← inParens (operatorName start.length)
          binary ("OPERATOR(" ++ name ++ ")")
        | "NOT" | "IN" | "BETWEEN" | "LIKE" | "ILIKE" | "SIMILAR" | "REGEXP" | "RLIKE" =>
          set start
          relationForm below e
        | word =>
          fail ("No infix parser for token Word(Word \x7b value: \"" ++ text ++
            "\", quote_style: None, keyword: " ++ word ++ " \x7d)" ++ atPlace found)
      | _ => expected "an expression" found
  | none => expected "an expression" found

/-- Takes the operators that bind more tightly than the precedence, from left to right. -/
def infixes (least : Nat) : (fuel : Nat) → Tree → Parser Tree
  | 0, e => pure e
  | fuel + 1, e => do
    let rest ← get
    let level := precedence rest
    if level ≤ least ∨ level = 200 then pure e
    else
      let e ← infixed below e level
      infixes least fuel e

/-- An expression whose operators bind more tightly than the precedence. -/
def expression (least : Nat) : Parser Tree := do
  let e ← accessed below
  let rest ← get
  infixes below least rest.length e

end

end Grammar
end Sql
end Routine
