import Routine.Datum

/-!
# Statements

A statement is simple, or it holds other statements: a block, a conditional, a `CASE` or a loop. The
simple statements and the heads of loops are types of their own, so a function that goes through
the statements of a routine has five cases and no more.

Numbers in these types are numbers of data unless they count something.
-/

namespace Routine

/-! ## Words with a number -/

/-- How severe a raised condition is. -/
structure Severity where
  level : Int64
deriving DecidableEq, Repr

namespace Severity

/-- The severity that a bare `RAISE` has. -/
def exception : Severity := ⟨21⟩

/-- The word that stands for a severity. -/
def keyword (s : Severity) : String :=
  if 10 ≤ s.level ∧ s.level ≤ 14 then "DEBUG"
  else if s.level = 15 ∨ s.level = 16 then "LOG"
  else if s.level = 17 then "INFO"
  else if s.level = 18 then "NOTICE"
  else if s.level = 19 ∨ s.level = 20 then "WARNING"
  else "EXCEPTION"

/-- The severity that a word stands for, in capitals. -/
def ofKeyword? : String → Option Severity
  | "DEBUG" => some ⟨14⟩
  | "LOG" => some ⟨15⟩
  | "INFO" => some ⟨17⟩
  | "NOTICE" => some ⟨18⟩
  | "WARNING" => some ⟨19⟩
  | "EXCEPTION" | "ERROR" => some exception
  | _ => none

end Severity

/-- What a raised condition is given besides its message. -/
inductive RaiseField where
  | errcode
  | message
  | detail
  | hint
  | column
  | constraint
  | datatype
  | table
  | schema
deriving DecidableEq, Repr

namespace RaiseField

/-- All of them, by number. -/
def all : List RaiseField :=
  [errcode, message, detail, hint, column, constraint, datatype, table, schema]

/-- The word that stands for it. -/
def keyword : RaiseField → String
  | errcode => "ERRCODE"
  | message => "MESSAGE"
  | detail => "DETAIL"
  | hint => "HINT"
  | column => "COLUMN"
  | constraint => "CONSTRAINT"
  | datatype => "DATATYPE"
  | table => "TABLE"
  | schema => "SCHEMA"

end RaiseField

/-- What diagnostics can be asked for. -/
inductive DiagnosticsItem where
  | rowCount
  | routineOid
  | context
  | errorContext
  | errorDetail
  | errorHint
  | returnedSqlstate
  | columnName
  | constraintName
  | datatypeName
  | messageText
  | tableName
  | schemaName
deriving DecidableEq, Repr

namespace DiagnosticsItem

/-- All of them, by number. -/
def all : List DiagnosticsItem :=
  [rowCount, routineOid, context, errorContext, errorDetail, errorHint, returnedSqlstate, columnName,
   constraintName, datatypeName, messageText, tableName, schemaName]

/-- The word that stands for it. -/
def keyword : DiagnosticsItem → String
  | rowCount => "ROW_COUNT"
  | routineOid => "PG_ROUTINE_OID"
  | context => "PG_CONTEXT"
  | errorContext => "PG_EXCEPTION_CONTEXT"
  | errorDetail => "PG_EXCEPTION_DETAIL"
  | errorHint => "PG_EXCEPTION_HINT"
  | returnedSqlstate => "RETURNED_SQLSTATE"
  | columnName => "COLUMN_NAME"
  | constraintName => "CONSTRAINT_NAME"
  | datatypeName => "PG_DATATYPE_NAME"
  | messageText => "MESSAGE_TEXT"
  | tableName => "TABLE_NAME"
  | schemaName => "SCHEMA_NAME"

end DiagnosticsItem

/-- Where a cursor moves. -/
inductive Direction where
  | forward
  | backward
  | absolute
  | relative
deriving DecidableEq, Repr

namespace Direction

/-- All of them, by number. -/
def all : List Direction := [forward, backward, absolute, relative]

/-- The word that stands for it. -/
def keyword : Direction → String
  | forward => "FORWARD"
  | backward => "BACKWARD"
  | absolute => "ABSOLUTE"
  | relative => "RELATIVE"

end Direction

/-- The count of rows that means all of them. -/
def allRows : Int64 := 9223372036854775807

/-! ## Simple statements -/

/-- One thing that a raised condition is given. -/
structure RaiseOption where
  field : RaiseField
  value : Leaf
deriving Repr

/-- A variable that gets an item of the diagnostics. -/
structure DiagnosticsTarget where
  item : DiagnosticsItem
  number : Int32
deriving DecidableEq, Repr

/-- Where rows of a result go. -/
structure IntoTarget where
  into : Bool
  strict : Bool
  target : Option Datum
deriving Repr

/-- A statement with no statements inside. -/
inductive Simple where
  /-- The text holds the whole assignment, or else its value only. -/
  | assign (number : Int32) (value : Leaf)
  /-- `EXIT`, or `CONTINUE`. -/
  | exit (isExit : Bool) (label : Option String) (condition : Option Leaf)
  | ret (value : Option Leaf) (number : Option Int32)
  | returnNext (value : Option Leaf) (number : Option Int32)
  | returnQuery (query dynamic : Option Leaf) (parameters : List Leaf)
  | raise (severity : Severity) (condition message : Option String) (parameters : List Leaf)
      (options : List RaiseOption)
  | assert (condition : Leaf) (message : Option Leaf)
  | execute (sql : Leaf) (into : IntoTarget)
  | executeDynamic (query : Leaf) (into : IntoTarget) (parameters : List Leaf)
  | getDiagnostics (stacked : Bool) (targets : List DiagnosticsTarget)
  | openCursor (cursor options : Int32) (arguments query dynamic : Option Leaf) (parameters : List Leaf)
  | fetch (target : Option Datum) (cursor : Int32) (direction : Direction) (count : Int64)
      (amount : Option Leaf) (isMove severalRows : Bool)
  | closeCursor (cursor : Int32)
  | perform (query : Leaf)
  /-- `CALL`, or `DO`. -/
  | call (sql : Leaf) (isCall : Bool) (target : Option Datum)
  | commit (chain : Bool)
  | rollback (chain : Bool)
  | set (sql : Leaf)
deriving Repr

/-- What a loop goes over. -/
inductive LoopHead where
  | forever
  | whilst (condition : Leaf)
  | range (target : Datum) (lower upper : Leaf) (step : Option Leaf) (reverse : Bool)
  | query (target : Datum) (sql : Leaf)
  | cursor (target : Datum) (number : Int32) (arguments : Option Leaf)
  | array (number slice : Int32) (value : Leaf)
  | dynamic (target : Datum) (sql : Leaf) (parameters : List Leaf)
deriving Repr

/-! ## Statements -/

mutual

/-- A statement and the line it starts in. -/
inductive Stmt where
  | block (b : Block)
  | simple (line : Int32) (s : Simple)
  | conditional (line : Int32) (condition : Leaf) (body : List Stmt) (arms : List Arm)
      (otherwise : List Stmt)
  | choice (line : Int32) (operand : Option Leaf) (number : Int32) (arms : List Arm) (hasElse : Bool)
      (otherwise : List Stmt)
  | loop (line : Int32) (label : Option String) (head : LoopHead) (body : List Stmt)

/-- Statements between `BEGIN` and `END`, with handlers for the conditions they raise. -/
structure Block where
  /-- The line of `BEGIN`. -/
  line : Int32
  label : Option String
  body : List Stmt
  handlers : Option (List Handler)

/-- What is done about some conditions. -/
structure Handler where
  line : Int32
  conditions : List String
  action : List Stmt

/-- A condition and what is done when it holds, in a conditional or a `CASE`. -/
structure Arm where
  line : Int32
  condition : Leaf
  body : List Stmt

end

/-- A routine: the table of its data, and its outermost block. -/
structure Function where
  data : List Datum
  action : Block

/-- A parse tree: the routines of a source text in order. -/
abbrev ParseTree := List Function

namespace Function

/-- The datum with a number, if the table has it. -/
def datum? (f : Function) (number : Int32) : Option Datum :=
  if 0 ≤ number then f.data[number.toInt.toNat]? else none

end Function

/-! ## Lines and bodies -/

namespace Block

/-- The lists of statements directly inside the block: its body, and the action of each handler. -/
def bodies (b : Block) : List (List Stmt) :=
  b.body :: (b.handlers.getD []).map Handler.action

end Block

namespace Stmt

/-- The line a statement starts in. -/
def line : Stmt → Int32
  | block b => b.line
  | simple line _ => line
  | conditional line _ _ _ _ => line
  | choice line _ _ _ _ _ => line
  | loop line _ _ _ => line

/-- The lists of statements directly inside the statement, in source order. -/
def bodies : Stmt → List (List Stmt)
  | block b => b.bodies
  | simple _ _ => []
  | conditional _ _ body arms otherwise => body :: arms.map Arm.body ++ [otherwise]
  | choice _ _ _ arms _ otherwise => arms.map Arm.body ++ [otherwise]
  | loop _ _ _ body => [body]

end Stmt

mutual

/-- The statement and all statements inside it, each before those inside it. -/
def Stmt.preorder : Stmt → List Stmt
  | .block b => .block b :: b.preorder
  | .simple line s => [.simple line s]
  | .conditional line condition body arms otherwise =>
    .conditional line condition body arms otherwise ::
      (Stmts.preorder body ++ Arms.preorder arms ++ Stmts.preorder otherwise)
  | .choice line operand number arms hasElse otherwise =>
    .choice line operand number arms hasElse otherwise ::
      (Arms.preorder arms ++ Stmts.preorder otherwise)
  | .loop line label head body => .loop line label head body :: Stmts.preorder body

/-- All statements of a list and those inside them. -/
def Stmts.preorder : List Stmt → List Stmt
  | [] => []
  | s :: ss => s.preorder ++ Stmts.preorder ss

/-- All statements inside a block. -/
def Block.preorder : Block → List Stmt
  | ⟨_, _, body, handlers⟩ => Stmts.preorder body ++ Handlers.preorder? handlers

/-- All statements inside handlers, if there are any. -/
def Handlers.preorder? : Option (List Handler) → List Stmt
  | none => []
  | some hs => Handlers.preorder hs

/-- All statements inside handlers. -/
def Handlers.preorder : List Handler → List Stmt
  | [] => []
  | ⟨_, _, action⟩ :: hs => Stmts.preorder action ++ Handlers.preorder hs

/-- All statements inside arms. -/
def Arms.preorder : List Arm → List Stmt
  | [] => []
  | ⟨_, _, body⟩ :: as => Stmts.preorder body ++ Arms.preorder as

end

mutual

/-- The statement with every line set to zero. -/
def Stmt.clearLines : Stmt → Stmt
  | .block b => .block b.clearLines
  | .simple _ s => .simple 0 s
  | .conditional _ condition body arms otherwise =>
    .conditional 0 condition (Stmts.clearLines body) (Arms.clearLines arms) (Stmts.clearLines otherwise)
  | .choice _ operand number arms hasElse otherwise =>
    .choice 0 operand number (Arms.clearLines arms) hasElse (Stmts.clearLines otherwise)
  | .loop _ label head body => .loop 0 label head (Stmts.clearLines body)

/-- The statements with every line set to zero. -/
def Stmts.clearLines : List Stmt → List Stmt
  | [] => []
  | s :: ss => s.clearLines :: Stmts.clearLines ss

/-- The block with every line set to zero. -/
def Block.clearLines : Block → Block
  | ⟨_, label, body, handlers⟩ => ⟨0, label, Stmts.clearLines body, Handlers.clearLines? handlers⟩

/-- The handlers with every line set to zero, if there are any. -/
def Handlers.clearLines? : Option (List Handler) → Option (List Handler)
  | none => none
  | some hs => some (Handlers.clearLines hs)

/-- The handlers with every line set to zero. -/
def Handlers.clearLines : List Handler → List Handler
  | [] => []
  | ⟨_, conditions, action⟩ :: hs => ⟨0, conditions, Stmts.clearLines action⟩ :: Handlers.clearLines hs

/-- The arms with every line set to zero. -/
def Arms.clearLines : List Arm → List Arm
  | [] => []
  | ⟨_, condition, body⟩ :: as => ⟨0, condition, Stmts.clearLines body⟩ :: Arms.clearLines as

end

/-- The tree with every line of a statement set to zero. The lines of data stay, because declarations
are placed by them. -/
def ParseTree.clearLines (t : ParseTree) : ParseTree :=
  t.map fun f => { f with action := f.action.clearLines }

end Routine
