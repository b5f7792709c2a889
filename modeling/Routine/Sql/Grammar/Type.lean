import Routine.Sql.Grammar.Parser

/-!
# Types

A type is spelled with keywords, some of which take a length or a precision, or it is a dotted name
with modifiers. Either is followed by any number of array brackets.
-/

namespace Routine
namespace Sql
namespace Grammar

/-- Types of one keyword. -/
def plainTypes : List String :=
  ["BOOLEAN", "BOOL", "REAL", "FLOAT4", "FLOAT8", "FLOAT64", "INT64", "UUID", "DATE", "JSON", "JSONB",
   "REGCLASS", "TEXT", "TINYTEXT", "MEDIUMTEXT", "LONGTEXT", "BYTEA", "TRIGGER", "INTERVAL",
   "TINYBLOB", "MEDIUMBLOB", "LONGBLOB"]

/-- Types with a length between parentheses, or without one. -/
def lengthTypes : List String :=
  ["FLOAT", "CLOB", "BINARY", "VARBINARY", "BLOB", "BYTES", "STRING", "DATETIME"]

/-- Whole numbers. -/
def integerTypes : List String :=
  ["TINYINT", "INT2", "SMALLINT", "MEDIUMINT", "INT", "INT4", "INT8", "INTEGER", "BIGINT"]

/-- Numbers with a precision and a scale. -/
def exactTypes : List String :=
  ["NUMERIC", "DECIMAL", "DEC", "BIGNUMERIC", "BIGDECIMAL"]

/-- A number between parentheses, if parentheses follow. -/
def length? : Parser String := do
  if ← nextIs (Token.isSign "(") then
    pure ("(" ++ toString (← inParens natural) ++ ")")
  else pure ""

/-- A precision, or a precision and a scale. -/
def precision? : Parser String := do
  if ← nextIs (Token.isSign "(") then
    inParens do
      let n ← natural
      if ← sign? "," then pure ("(" ++ toString n ++ "," ++ toString (← natural) ++ ")")
      else pure ("(" ++ toString n ++ ")")
  else pure ""

/-- A number of characters, with its unit if one is given. -/
def characters? : Parser String := do
  if ← nextIs (Token.isSign "(") then
    inParens do
      if ← keyword? "MAX" then pure "(MAX)"
      else
        let n ← natural
        let unit ← oneOf? ["CHARACTERS", "OCTETS"]
        pure ("(" ++ toString n ++ (unit.elim "" (" " ++ ·)) ++ ")")
  else pure ""

/-- A time with a precision and with or without a zone. -/
def timeType (word : String) : Parser String := do
  let length ← length?
  if ← keyword? "WITH" then
    keywords ["TIME", "ZONE"]
    pure (word ++ length ++ " WITH TIME ZONE")
  else if ← keyword? "WITHOUT" then
    keywords ["TIME", "ZONE"]
    pure (word ++ length ++ " WITHOUT TIME ZONE")
  else pure (word ++ length)

/-- A type of characters that can be varying or large. -/
def characterType (word : String) : Parser String := do
  if ← keyword? "VARYING" then pure (word ++ " VARYING" ++ (← characters?))
  else if ← keywords? ["LARGE", "OBJECT"] then pure (word ++ " LARGE OBJECT" ++ (← length?))
  else pure (word ++ (← characters?))

/-- The rest of a type that starts with a keyword, if it does. -/
def builtinType? (word : String) : Option (Parser String) :=
  if word ∈ plainTypes then some (pure word)
  else if word ∈ lengthTypes then some do pure (word ++ (← length?))
  else if word ∈ integerTypes then
    some do
      let length ← length?
      pure (word ++ length ++ (if ← keyword? "UNSIGNED" then " UNSIGNED" else ""))
  else if word ∈ exactTypes then some do pure (word ++ (← precision?))
  else if word ∈ ["VARCHAR", "NVARCHAR"] then some do pure (word ++ (← characters?))
  else if word ∈ ["CHARACTER", "CHAR"] then some (characterType word)
  else if word ∈ ["TIMESTAMP", "TIME"] then some (timeType word)
  else if word ∈ ["TIMESTAMPTZ", "TIMETZ"] then some do pure (word ++ (← length?))
  else if word = "DOUBLE" then
    some do
      if ← keyword? "PRECISION" then pure "DOUBLE PRECISION" else pure (word ++ (← precision?))
  else if word = "BIT" then
    some do
      let word := if ← keyword? "VARYING" then "BIT VARYING" else "BIT"
      pure (word ++ (← length?))
  else none

/-- The modifiers of a named type, through the closing parenthesis. Commas between them may be left
out. -/
def modifiers : (fuel : Nat) → Parser (List String)
  | 0 => pure []
  | fuel + 1 => do
    let found ← next
    match found with
    | some ⟨.word value inQuotes, _⟩ =>
      pure ((Token.word value inQuotes).display :: (← modifiers fuel))
    | some ⟨.number digits _, _⟩ => pure (digits :: (← modifiers fuel))
    | some ⟨.string .plain value, _⟩ => pure (value :: (← modifiers fuel))
    | some ⟨.sign ",", _⟩ => modifiers fuel
    | some ⟨.sign ")", _⟩ => pure []
    | _ => expected "type modifiers" found

/-- A type with a name. -/
def namedType : Parser Tree := do
  let type ← dottedName
  if ← sign? "(" then
    let rest ← get
    pure (.custom type (← modifiers (rest.length + 1)))
  else pure (.custom type [])

/-- The type inside the array brackets that follow. -/
def brackets : (fuel : Nat) → Tree → Parser Tree
  | 0, type => pure type
  | fuel + 1, type => do
    if ← sign? "[" then
      let size ← attempt natural
      sign "]"
      brackets fuel (.array type size)
    else pure type

/-- A type before its array brackets, nested at most `fuel` deep. -/
def itemType : (fuel : Nat) → Parser Tree
  | 0 => tooDeep
  | fuel + 1 => do
    let found ← peek
    match found with
    | some ⟨.word value inQuotes, _⟩ =>
      let word := if inQuotes then "" else Text.keywordForm value
      if word = "ARRAY" then
        let _ ← next
        sign "<"
        let item ← itemType fuel
        sign ">"
        pure (.phrase [.keyword "ARRAY<", item, .keyword ">"])
      else
        match builtinType? word with
        | some rest =>
          let _ ← next
          pure (.builtin (← rest))
        | none => namedType
    | _ =>
      let _ ← next
      expected "a data type name" found

/-- A type. -/
def type : Parser Tree := do
  let rest ← get
  let item ← itemType (rest.length + 1)
  brackets rest.length item

end Grammar
end Sql
end Routine
