/-!
# Keywords that are not names

A word after an expression or a table is its alias, unless it can start what may follow there.
-/

namespace Routine
namespace Sql
namespace Grammar

/-- The words that are no alias of a result. -/
def notColumnAlias : List String :=
  ["WITH", "EXPLAIN", "ANALYZE", "SELECT", "WHERE", "GROUP", "SORT", "HAVING", "ORDER", "TOP", "LATERAL",
   "VIEW", "LIMIT", "OFFSET", "FETCH", "UNION", "EXCEPT", "INTERSECT", "MINUS", "CLUSTER", "DISTRIBUTE",
   "RETURNING", "FROM", "INTO", "END"]

/-- The words that are no alias of a table. -/
def notTableAlias : List String :=
  ["WITH", "EXPLAIN", "ANALYZE", "SELECT", "WHERE", "GROUP", "SORT", "HAVING", "ORDER", "PIVOT",
   "UNPIVOT", "TOP", "LATERAL", "VIEW", "LIMIT", "OFFSET", "FETCH", "UNION", "EXCEPT", "INTERSECT",
   "MINUS", "ON", "JOIN", "INNER", "CROSS", "FULL", "LEFT", "RIGHT", "NATURAL", "USING", "CLUSTER",
   "DISTRIBUTE", "GLOBAL", "ANTI", "SEMI", "RETURNING", "ASOF", "MATCH_CONDITION", "OUTER", "SET",
   "QUALIFY", "WINDOW", "END", "FOR", "PARTITION", "PREWHERE", "SETTINGS", "FORMAT", "START", "CONNECT",
   "MATCH_RECOGNIZE", "SAMPLE", "TABLESAMPLE"]

/-- The words whose special form is the only way to read them. -/
def notIdentifier : List String := ["EXISTS", "INTERVAL", "STRUCT", "TRIM"]

/-- The parts of a date or time that can stand after an interval. -/
def intervalUnits : List String :=
  ["YEAR", "YEARS", "MONTH", "MONTHS", "WEEK", "WEEKS", "DAY", "DAYS", "HOUR", "HOURS", "MINUTE",
   "MINUTES", "SECOND", "SECONDS", "CENTURY", "DECADE", "DOW", "DOY", "EPOCH", "ISODOW", "ISOYEAR",
   "JULIAN", "MICROSECOND", "MICROSECONDS", "MILLENIUM", "MILLENNIUM", "MILLISECOND", "MILLISECONDS",
   "NANOSECOND", "NANOSECONDS", "QUARTER", "TIMEZONE", "TIMEZONE_HOUR", "TIMEZONE_MINUTE"]

/-- The other parts of a date or time that are keywords. -/
def otherUnits : List String :=
  ["DATE", "DATETIME", "DAYOFWEEK", "DAYOFYEAR", "ISOWEEK", "TIME", "TIMEZONE_ABBR", "TIMEZONE_REGION"]

/-- Further words that are not read as the text of a typed literal. -/
def otherKeywords : List String :=
  ["ADD", "ALL", "ALTER", "AND", "ANY", "ARRAY", "AS", "ASC", "AT", "BEGIN", "BETWEEN", "BOTH", "BY",
   "CALL", "CASE", "CAST", "CHECK", "COLLATE", "COLUMN", "COMMIT", "CONFLICT", "CONSTRAINT", "CREATE",
   "CURRENT", "CURRENT_DATE", "CURRENT_TIME", "CURRENT_TIMESTAMP", "CURRENT_USER", "DEFAULT", "DELETE",
   "DESC", "DISTINCT", "DO", "DROP", "ELSE", "ESCAPE", "EXECUTE", "EXISTS", "EXTRACT", "FALSE",
   "FILTER", "FIRST", "FOLLOWING", "FUNCTION", "IF", "ILIKE", "IN", "INDEX", "INSERT", "INTERVAL",
   "IS", "KEY", "LANGUAGE", "LAST", "LEADING", "LIKE", "LOCAL", "LOCK", "LOOP", "NAME", "NEXT", "NO",
   "NOT", "NOTHING", "NULL", "NULLS", "OF", "ONLY", "OPERATOR", "OR", "OVER", "OVERLAPS", "PLACING",
   "POSITION", "PRECEDING", "PRIMARY", "RANGE", "RECURSIVE", "REGEXP", "RLIKE", "ROLE", "ROLLBACK",
   "ROW", "ROWS", "SAVEPOINT", "SCHEMA", "SESSION", "SHARE", "SIMILAR", "SKIP", "SOME", "SUBSTRING",
   "TABLE", "TEMP", "THEN", "TIES", "TO", "TRAILING", "TRANSACTION", "TRIM", "TRUE", "TYPE",
   "UNBOUNDED", "UNIQUE", "UNKNOWN", "UNNEST", "UPDATE", "USER", "VALUE", "VALUES", "WHEN", "WITHIN",
   "WITHOUT", "WORK", "XOR", "ZONE"]

/-- A word that is never read as the text of a typed literal. -/
def isKeyword (word : String) : Bool :=
  notColumnAlias.contains word || notTableAlias.contains word || intervalUnits.contains word ||
    otherUnits.contains word || otherKeywords.contains word

end Grammar
end Sql
end Routine
