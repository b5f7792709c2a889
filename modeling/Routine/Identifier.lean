import Routine.Text.Blank
import Routine.Text.Find
import Routine.Text.Letters

/-!
# Identifiers and qualified names

An identifier outside double quotes is folded to small letters; inside them it is kept as written,
with every double quote of the name written twice. A qualified name is a list of identifiers with
dots between them, and a dot inside quotes separates nothing.

`quote` writes a name so that it reads back as itself, with quotes only where they are needed, and
`normalize` reads one part of a written name.
-/

namespace Routine
namespace Identifier

/-- The words that cannot stand for a name without quotes. -/
def reserved : List String :=
  ["all", "analyse", "analyze", "and", "any", "array", "as", "asc", "asymmetric",
   "authorization", "between", "bigint", "binary", "bit", "boolean", "both", "case", "cast",
   "char", "character", "check", "coalesce", "collate", "collation", "column", "concurrently",
   "constraint", "create", "cross", "current_catalog", "current_date", "current_role",
   "current_schema", "current_time", "current_timestamp", "current_user", "dec", "decimal",
   "default", "deferrable", "desc", "distinct", "do", "else", "end", "except", "exists",
   "extract", "false", "fetch", "float", "for", "foreign", "freeze", "from", "full", "grant",
   "greatest", "group", "grouping", "having", "ilike", "in", "initially", "inner", "inout",
   "int", "integer", "intersect", "interval", "into", "is", "isnull", "join", "lateral",
   "leading", "least", "left", "like", "limit", "localtime", "localtimestamp", "national",
   "natural", "nchar", "none", "normalize", "not", "notnull", "null", "nullif", "numeric",
   "offset", "on", "only", "or", "order", "out", "outer", "overlaps", "overlay", "placing",
   "position", "precision", "primary", "real", "references", "returning", "right", "row",
   "select", "session_user", "setof", "similar", "smallint", "some", "substring", "symmetric",
   "system_user", "table", "tablesample", "then", "time", "timestamp", "to", "trailing", "treat",
   "trim", "true", "union", "unique", "user", "using", "values", "varchar", "variadic",
   "verbose", "when", "where", "window", "with", "xmlattributes", "xmlconcat", "xmlelement",
   "xmlexists", "xmlforest", "xmlnamespaces", "xmlparse", "xmlpi", "xmlroot", "xmlserialize",
   "xmltable"]

/-- A character that an identifier outside quotes can start with. -/
def isHeadChar (c : Char) : Bool :=
  c.isLower || c = '_'

/-- A character that an identifier outside quotes can go on with. -/
def isTailChar (c : Char) : Bool :=
  c.isLower || c.isDigit || c = '_' || c = '$'

/-- A name that is written without quotes: small letters, digits and marks, and no reserved word. -/
def isPlain (name : String) : Bool :=
  match name.toList with
  | [] => false
  | c :: cs => isHeadChar c && cs.all isTailChar && !reserved.contains name

/-- A name that must be written between quotes to read back as itself. -/
def needsQuoting (name : String) : Bool :=
  !isPlain name

/-- The name between double quotes. -/
def enclose (name : String) : String :=
  String.ofList ('"' :: Text.doubled '"' name.toList ++ ['"'])

/-- The name as it is written, with quotes only when they are needed. -/
def quote (name : String) : String :=
  if needsQuoting name then enclose name else name

/-! ## Reading -/

/-- The characters between a leading and a closing double quote, if the text has both. -/
def inner? : List Char → Option (List Char)
  | '"' :: rest => if rest.getLast? = some '"' then some rest.dropLast else none
  | _ => none

/-- One written part with its quotes undone; outside quotes it is changed by `fold`. -/
def readPart (fold : List Char → List Char) (part : List Char) : List Char :=
  let part := Text.strip part
  match inner? part with
  | some inside => Text.undoubled '"' inside
  | none => fold part

/-- The name that one written part stands for. -/
def normalize (part : String) : String :=
  String.ofList (readPart (List.map Text.lower) part.toList)

/-- The first piece grows by a character at its front. -/
def growFirst (c : Char) : List (List Char) → List (List Char)
  | [] => [[c]]
  | piece :: pieces => (c :: piece) :: pieces

/-- The pieces of a text between the dots outside double quotes. -/
def splitDots (inQuotes : Bool) : List Char → List (List Char)
  | [] => [[]]
  | c :: cs =>
    if c = '.' ∧ inQuotes = false then [] :: splitDots inQuotes cs
    else growFirst c (splitDots (if c = '"' then !inQuotes else inQuotes) cs)

/-- The written parts of a qualified name. -/
def split (name : String) : List String :=
  (splitDots false name.toList).map String.ofList

/-- The name has a dot outside double quotes. -/
def isQualified (name : String) : Bool :=
  1 < (split name).length

/-- Every part of the name without its quotes, otherwise as written. -/
def stripQuotes (name : String) : String :=
  String.intercalate "." ((splitDots false name.toList).map fun part =>
    String.ofList (readPart id part))

end Identifier
end Routine
