import Routine.IntoClause
import Routine.Layout.Basic

/-!
# Simple statements

Each simple statement is one line that ends in a semicolon.
-/

namespace Routine
namespace Layout

variable (y : Layout)

/-- An assignment. A leaf that holds the value only is given the target of the statement. -/
def assign (number : Int32) (value : Leaf) : String :=
  let text := y.leaf value
  if value.mode.isAssignment || Text.contains text ":=" then text
  else y.function.reference number ++ " := " ++ text

/-- `EXIT` or `CONTINUE`. -/
def exit (isExit : Bool) (label : Option String) (condition : Option Leaf) : String :=
  spaced <|
    [y.keyword (if isExit then "EXIT" else "CONTINUE")] ++ label.toList ++
      match condition with
      | some l => [y.keyword "WHEN", y.leaf l]
      | none => []

/-- The datum is named after `RETURN`. A row is not when its members are output parameters. -/
def isReturned : Datum → Bool
  | .record _ => true
  | .row r => !r.isUnnamed && y.kind != some .outParams
  | _ => false

/-- `RETURN`. Without a value it names the datum that is returned, if that has a name; a routine with
a scalar result returns null. -/
def ret (value : Option Leaf) (number : Option Int32) : String :=
  let bare := if y.kind = some .scalar then y.keyword "RETURN NULL" else y.keyword "RETURN"
  match value with
  | some l => y.keyword "RETURN" ++ " " ++ y.leaf l
  | none =>
    match number.bind y.function.datum? with
    | some d => if y.isReturned d then y.keyword "RETURN" ++ " " ++ y.function.referenceFor d else bare
    | none => bare

/-- `RETURN NEXT`. -/
def returnNext (value : Option Leaf) (number : Option Int32) : String :=
  spaced <|
    [y.keyword "RETURN NEXT"] ++
      match value, number with
      | some l, _ => [y.leaf l]
      | none, some n => [y.function.reference n]
      | none, none => []

/-- `RETURN QUERY`. -/
def returnQuery (query dynamic : Option Leaf) (parameters : List Leaf) : String :=
  match query, dynamic with
  | some l, _ => y.keyword "RETURN QUERY" ++ " " ++ y.leaf l
  | none, some l => y.keyword "RETURN QUERY EXECUTE" ++ " " ++ y.leaf l ++ y.parameters parameters
  | none, none => y.keyword "RETURN QUERY"

/-- The message of a raised condition, between quotes, and its parameters. -/
def raiseMessage (message : String) (parameters : List Leaf) : String :=
  commas (("'" ++ String.ofList (Text.doubled '\'' message.toList) ++ "'") :: parameters.map y.leaf)

/-- `RAISE`. With nothing to say it raises the condition at hand once more. -/
def raise (severity : Severity) (condition message : Option String) (parameters : List Leaf)
    (options : List RaiseOption) : String :=
  if condition.isNone && message.isNone && parameters.isEmpty && options.isEmpty &&
      severity == .exception then y.keyword "RAISE"
  else
    spaced <|
      [y.keyword "RAISE", y.keyword severity.keyword] ++
        (match condition, message with
          | some name, _ => [y.condition name]
          | none, some message => [y.raiseMessage message parameters]
          | none, none => []) ++
        if options.isEmpty then []
        else [y.keyword "USING",
          commas (options.map fun o => y.keyword o.field.keyword ++ " = " ++ y.leaf o.value)]

/-- `ASSERT`. -/
def assert (condition : Leaf) (message : Option Leaf) : String :=
  y.keyword "ASSERT" ++ " " ++ commas (y.leaf condition :: message.toList.map y.leaf)

/-- SQL that may put its rows somewhere. -/
def execute (sql : Leaf) (into : IntoTarget) : String :=
  match into.target, into.into with
  | some target, true => IntoClause.insert (y.leaf sql) (y.into target into.strict)
  | _, _ => y.leaf sql

/-- `EXECUTE`. -/
def executeDynamic (query : Leaf) (into : IntoTarget) (parameters : List Leaf) : String :=
  spaced
    ([y.keyword "EXECUTE", y.leaf query] ++
      match into.target, into.into with
      | some target, true => [y.into target into.strict]
      | _, _ => []) ++ y.parameters parameters

/-- `GET DIAGNOSTICS`. -/
def getDiagnostics (stacked : Bool) (targets : List DiagnosticsTarget) : String :=
  y.keyword (if stacked then "GET STACKED DIAGNOSTICS" else "GET DIAGNOSTICS") ++ " " ++
    commas (targets.map fun t => y.function.reference t.number ++ " = " ++ y.keyword t.item.keyword)

/-- `OPEN`. -/
def openCursor (cursor options : Int32) (arguments query dynamic : Option Leaf)
    (parameters : List Leaf) : String :=
  y.keyword "OPEN" ++ " " ++ y.function.reference cursor ++
    match arguments, query, dynamic with
    | some l, _, _ => y.cursorArguments l
    | none, some l, _ => " " ++ y.scroll options ++ y.keyword "FOR" ++ " " ++ y.leaf l
    | none, none, some l =>
      " " ++ y.scroll options ++ y.keyword "FOR EXECUTE" ++ " " ++ y.leaf l ++ y.parameters parameters
    | none, none, none => ""

/-- Where a cursor moves; nothing is said about the next row. -/
def direction (direction : Direction) (count : Int64) (amount : Option Leaf) : Option String :=
  match amount with
  | some l => some (y.keyword direction.keyword ++ " " ++ y.leaf l)
  | none =>
    let counted := y.keyword direction.keyword ++ " " ++ toString count.toInt
    match direction with
    | .forward =>
      if count = 1 then none
      else if count = allRows then some (y.keyword "FORWARD ALL") else some counted
    | .backward =>
      if count = 1 then some (y.keyword "PRIOR")
      else if count = allRows then some (y.keyword "BACKWARD ALL") else some counted
    | .absolute =>
      if count = 1 then some (y.keyword "FIRST")
      else if count = -1 then some (y.keyword "LAST") else some counted
    | .relative => some counted

/-- `FETCH` or `MOVE`. -/
def fetch (target : Option Datum) (cursor : Int32) (direction : Direction) (count : Int64)
    (amount : Option Leaf) (isMove : Bool) : String :=
  spaced <|
    [y.keyword (if isMove then "MOVE" else "FETCH")] ++
      (match y.direction direction count amount with
        | some words => [words, y.keyword "FROM"]
        | none => []) ++
      [y.function.reference cursor] ++
      match target, isMove with
      | some d, false => [y.keyword "INTO", y.function.referenceFor d]
      | _, _ => []

/-- The end of a transaction. -/
def transaction (word : String) (chain : Bool) : String :=
  if chain then y.keyword word ++ " " ++ y.keyword "AND CHAIN" else y.keyword word

/-- A simple statement without its semicolon. -/
def simple : Simple → String
  | .assign number value => y.assign number value
  | .exit isExit label condition => y.exit isExit label condition
  | .ret value number => y.ret value number
  | .returnNext value number => y.returnNext value number
  | .returnQuery query dynamic parameters => y.returnQuery query dynamic parameters
  | .raise severity condition message parameters options =>
    y.raise severity condition message parameters options
  | .assert condition message => y.assert condition message
  | .execute sql into => y.execute sql into
  | .executeDynamic query into parameters => y.executeDynamic query into parameters
  | .getDiagnostics stacked targets => y.getDiagnostics stacked targets
  | .openCursor cursor options arguments query dynamic parameters =>
    y.openCursor cursor options arguments query dynamic parameters
  | .fetch target cursor direction count amount isMove _ =>
    y.fetch target cursor direction count amount isMove
  | .closeCursor cursor => y.keyword "CLOSE" ++ " " ++ y.function.reference cursor
  | .perform query => y.keyword "PERFORM" ++ " " ++ Sql.dropSelect (y.leaf query)
  | .call sql _ _ => y.leaf sql
  | .commit chain => y.transaction "COMMIT" chain
  | .rollback chain => y.transaction "ROLLBACK" chain
  | .set sql => y.leaf sql

end Layout
end Routine
