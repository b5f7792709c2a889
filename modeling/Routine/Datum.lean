import Routine.Leaf

/-!
# Names of a routine

Everything that a routine's statements can refer to by number is a datum: variables, records, rows of
other data, and fields of records. The numbers are places in the routine's table of data; what they
refer to may be missing, and rows and fields may refer to each other in circles.
-/

namespace Routine

/-- A scalar variable. A cursor is one too, with its query and options. -/
structure Variable where
  name : String
  /-- The line it is declared in; zero if no source line declares it. -/
  line : Int32
  type : Option TypeRef
  isConstant : Bool
  notNull : Bool
  initial : Option Leaf
  cursorQuery : Option Leaf
  /-- The row of the cursor's arguments. -/
  cursorArguments : Option Int32
  cursorOptions : Int32
deriving Repr

/-- A record variable. -/
structure RecordVariable where
  name : String
  number : Option Int32
  line : Int32
  type : Option TypeRef
deriving Repr

/-- A member of a row: its name, and the number of the datum it stands for. -/
structure Member where
  name : String
  number : Int32
deriving DecidableEq, Repr

/-- A row of other data. -/
structure Row where
  name : String
  line : Int32
  members : List Member
deriving DecidableEq, Repr

/-- A field of a record: its name, and the number of the record. -/
structure FieldAccess where
  name : String
  record : Int32
deriving DecidableEq, Repr

/-- Something that statements refer to. -/
inductive Datum where
  | scalar (v : Variable)
  | record (r : RecordVariable)
  | row (r : Row)
  | field (f : FieldAccess)
deriving Repr

/-! ## Names that no source declares -/

/-- The name of a row that has none. -/
def unnamedRow : String := "(unnamed row)"

/-- What the name of the hidden operand of a `CASE` starts with. -/
def caseVariableLead : String := "__Case__Variable_"

/-- The variables that every routine has. -/
def builtinNames : List String :=
  ["found", "sqlstate", "sqlerrm", "new", "old", "tg_name", "tg_when", "tg_level", "tg_op", "tg_relid",
   "tg_relname", "tg_table_name", "tg_table_schema", "tg_nargs", "tg_argv", "tg_event", "tg_tag"]

/-- The text starts with the other. -/
def startsWithText (text lead : String) : Bool :=
  lead.toList.isPrefixOf text.toList

/-- A name that no declaration introduces: a built-in variable, a row without a name, the operand of
a `CASE`, or a positional parameter. -/
def isInternalName (name : String) : Bool :=
  builtinNames.any (Text.sameName · name) || name == unnamedRow ||
    startsWithText name caseVariableLead || startsWithText name "$"

namespace Row

/-- The row has no name of its own. -/
def isUnnamed (r : Row) : Bool := r.name == unnamedRow

end Row

namespace Datum

/-- The declared name; a field has none of its own. -/
def name? : Datum → Option String
  | scalar v => some v.name
  | record r => some r.name
  | row r => some r.name
  | field _ => none

/-- The line it is declared in; zero if no source line declares it. -/
def line : Datum → Int32
  | scalar v => v.line
  | record r => r.line
  | row r => r.line
  | field _ => 0

/-- The datum declared in another line; a field is declared in none. -/
def setLine? (line : Int32) : Datum → Option Datum
  | scalar v => some (scalar { v with line })
  | record r => some (record { r with line })
  | row r => some (row { r with line })
  | field _ => none

/-- The datum under another name. -/
def rename (new : String) : Datum → Datum
  | scalar v => scalar { v with name := new }
  | record r => record { r with name := new }
  | row r => row { r with name := new }
  | field f => field f

end Datum
end Routine
