import Routine.Codec.Datum
import Routine.Statement

/-!
# Statements in JSON

Every statement is an object with one member, whose name is the kind of the statement. Words that
have a number are written one way and read in two: some sources give the word, others the number.

The shape of statements is given level by level, like that of parsed SQL: the statements inside a
statement have the shape of the level below.
-/

namespace Routine

/-! ## Words with a number -/

/-- A number, or the word for it. -/
inductive NumberOrName where
  | number (n : Int64)
  | name (s : String)

/-- A number or a word. -/
def NumberOrName.shape : Shape NumberOrName :=
  .either "NumberOrName"
    (fun
      | .int n => if Shape.isInt64 n then some (number (Int64.ofInt n)) else none
      | .str s => some (name s)
      | _ => none)
    (fun
      | number n => .int n.toInt
      | name s => .str s)

/-- The item of a list with a number. -/
def byNumber? {α : Type} (all : List α) (n : Int64) : Option α :=
  if 0 ≤ n then all[n.toInt.toNat]? else none

/-- The text without a lead that it may have. -/
def withoutLead (lead text : String) : String :=
  if startsWithText text lead then String.ofList (text.toList.drop lead.toList.length) else text

/-- A severity, by its level or its word. -/
def Severity.shape : Shape Severity :=
  .convert
    (fun
      | .number n => .ok ⟨n⟩
      | .name s =>
        match ofKeyword? (Text.uppercase s) with
        | some severity => .ok severity
        | none => .error ("unknown elog level `" ++ Text.uppercase s ++ "`"))
    (fun severity => .number severity.level) NumberOrName.shape

/-- What a raised condition is given, by number or by word. -/
def RaiseField.shape : Shape RaiseField :=
  .convert
    (fun
      | .number n =>
        match byNumber? all n with
        | some field => .ok field
        | none => .error ("unknown raise option " ++ toString n.toInt)
      | .name s =>
        let word := withoutLead "PLPGSQL_RAISEOPTION_" (Text.uppercase s)
        match all.find? (·.keyword = word) with
        | some field => .ok field
        | none => .error ("unknown raise option `" ++ s ++ "`"))
    (fun field => .name field.keyword) NumberOrName.shape

/-- An item of the diagnostics, by number or by word. -/
def DiagnosticsItem.shape : Shape DiagnosticsItem :=
  .convert
    (fun
      | .number n =>
        match byNumber? all n with
        | some item => .ok item
        | none => .error ("unknown diagnostics item " ++ toString n.toInt)
      | .name s =>
        match all.find? fun item => Text.sameName item.keyword s with
        | some item => .ok item
        | none => .error ("unknown diagnostics item `" ++ s ++ "`"))
    (fun item => .name item.keyword) NumberOrName.shape

/-- The number of a direction. -/
def Direction.number : Direction → Int64
  | forward => 0
  | backward => 1
  | absolute => 2
  | relative => 3

/-- A direction, by number or by word. -/
def Direction.shape : Shape Direction :=
  .convert
    (fun
      | .number n =>
        match byNumber? all n with
        | some direction => .ok direction
        | none => .error ("unknown fetch direction " ++ toString n.toInt)
      | .name s =>
        let word := withoutLead "FETCH_" (Text.uppercase s)
        match all.find? (·.keyword = word) with
        | some direction => .ok direction
        | none => .error ("unknown fetch direction `" ++ s ++ "`"))
    (fun direction => .number direction.number) NumberOrName.shape

/-- A truth value, or a number that is zero when it is false. -/
def boolOrNumberShape : Shape Bool :=
  .either "BoolOrNumber"
    (fun
      | .bool b => some b
      | .int n => if Shape.isInt64 n then some (n ≠ 0) else none
      | _ => none)
    .bool

/-! ## Members -/

/-- A list of tagged objects; null is the empty list. -/
def taggedList {α : Type} (tag : String) (item : Shape α) : Shape (List α) :=
  .convert (fun items => .ok (items.getD [])) some (.option (.list (.tagged tag item)))

namespace Fields

variable {α β σ : Type}

/-- A list of tagged objects, empty when it is missing. -/
def tagged (name tag : String) (item : Shape α) (rest : Fields β σ) :
    Fields (List α × β) (Option (List α) × σ) :=
  .defaulted name (taggedList tag item) [] rest

/-- A list, empty when it is missing. -/
def listed (name : String) (item : Shape α) (rest : Fields β σ) :
    Fields (List α × β) (Option (List α) × σ) :=
  .defaulted name (.list item) [] rest

/-- A label, if there is one. -/
def label (rest : Fields β σ) : Fields (Option String × β) (Option (Option String) × σ) :=
  .optional "label" .string rest

end Fields

/-- A condition that a handler is for. -/
def conditionShape : Shape String :=
  .convert (fun (name, ()) => .ok name) (fun name => (name, ()))
    (.record "struct Condition" (.required "condname" .string .nil))

section

variable (leaf : Shape Leaf) (datum : Shape Datum)

/-- One thing that a raised condition is given. -/
def RaiseOption.shape : Shape RaiseOption :=
  .convert (fun (field, value, ()) => .ok ⟨field, value⟩) (fun o => (o.field, o.value, ()))
    (.record "struct RaiseOption" (.required "opt_type" RaiseField.shape (.required "expr" leaf .nil)))

/-- A variable that gets an item of the diagnostics. -/
def DiagnosticsTarget.shape : Shape DiagnosticsTarget :=
  .convert (fun (item, number, ()) => .ok ⟨item, number⟩) (fun t => (t.item, t.number, ()))
    (.record "struct DiagItem" (.required "kind" DiagnosticsItem.shape (.required "target" .int32 .nil)))

/-! ## Statements with no statements inside -/

/-- A simple statement under its tag, with its line before its other members. -/
def simpleVariant {α σ : Type} (tag title : String) (fields : Fields α σ) (inject : α → Simple)
    (project : Simple → Option α) (rest : Variants Stmt) : Variants Stmt :=
  .holding tag (.record title (.line fields)) (fun (line, a) => .simple line (inject a))
    (fun
      | .simple line s => (project s).map (line, ·)
      | _ => none) rest

/-- A loop under its tag, with its line and label before its other members. -/
def loopVariant {α σ : Type} (tag title : String) (fields : Fields α σ) (inject : α → LoopHead × List Stmt)
    (project : LoopHead → List Stmt → Option α) (rest : Variants Stmt) : Variants Stmt :=
  .holding tag (.record title (.line (.label fields)))
    (fun (line, label, a) => let (head, body) := inject a; .loop line label head body)
    (fun
      | .loop line label head body => (project head body).map fun a => (line, label, a)
      | _ => none) rest

/-- The simple statements from `EXIT` to `EXECUTE`. -/
def earlySimple (rest : Variants Stmt) : Variants Stmt :=
  simpleVariant "PLpgSQL_stmt_exit" "struct Exit"
    (.defaulted "is_exit" .bool false (.label (.optional "cond" leaf .nil)))
    (fun (isExit, label, condition, ()) => .exit isExit label condition)
    (fun | .exit isExit label condition => some (isExit, label, condition, ()) | _ => none) <|
  simpleVariant "PLpgSQL_stmt_return" "struct Return"
    (.optional "expr" leaf (.optional "retvarno" .int32 .nil))
    (fun (value, number, ()) => .ret value number)
    (fun | .ret value number => some (value, number, ()) | _ => none) <|
  simpleVariant "PLpgSQL_stmt_return_next" "struct ReturnNext"
    (.optional "expr" leaf (.optional "retvarno" .int32 .nil))
    (fun (value, number, ()) => .returnNext value number)
    (fun | .returnNext value number => some (value, number, ()) | _ => none) <|
  simpleVariant "PLpgSQL_stmt_return_query" "struct ReturnQuery"
    (.optional "query" leaf (.optional "dynquery" leaf (.listed "params" leaf .nil)))
    (fun (query, dynamic, parameters, ()) => .returnQuery query dynamic parameters)
    (fun | .returnQuery query dynamic parameters => some (query, dynamic, parameters, ()) | _ => none) <|
  simpleVariant "PLpgSQL_stmt_raise" "struct Raise"
    (.defaulted "elog_level" Severity.shape .exception <| .optional "condname" .string <|
      .optional "message" .string <| .listed "params" leaf <|
      .tagged "options" "PLpgSQL_raise_option" (RaiseOption.shape leaf) .nil)
    (fun (severity, condition, message, parameters, options, ()) =>
      .raise severity condition message parameters options)
    (fun
      | .raise severity condition message parameters options =>
        some (severity, condition, message, parameters, options, ())
      | _ => none) <|
  simpleVariant "PLpgSQL_stmt_assert" "struct Assert"
    (.required "cond" leaf (.optional "message" leaf .nil))
    (fun (condition, message, ()) => .assert condition message)
    (fun | .assert condition message => some (condition, message, ()) | _ => none) <|
  simpleVariant "PLpgSQL_stmt_execsql" "struct ExecSql"
    (.required "sqlstmt" leaf (.flag "into" (.flag "strict" (.optional "target" datum .nil))))
    (fun (sql, into, strict, target, ()) => .execute sql ⟨into, strict, target⟩)
    (fun | .execute sql t => some (sql, t.into, t.strict, t.target, ()) | _ => none) <|
  simpleVariant "PLpgSQL_stmt_dynexecute" "struct DynExecute"
    (.required "query" leaf <| .flag "into" <| .flag "strict" <| .optional "target" datum <|
      .listed "params" leaf .nil)
    (fun (query, into, strict, target, parameters, ()) =>
      .executeDynamic query ⟨into, strict, target⟩ parameters)
    (fun
      | .executeDynamic query t parameters => some (query, t.into, t.strict, t.target, parameters, ())
      | _ => none) <|
  rest

/-- The simple statements from `GET DIAGNOSTICS` to `SET`. -/
def lateSimple (rest : Variants Stmt) : Variants Stmt :=
  simpleVariant "PLpgSQL_stmt_getdiag" "struct GetDiag"
    (.flag "is_stacked" (.tagged "diag_items" "PLpgSQL_diag_item" DiagnosticsTarget.shape .nil))
    (fun (stacked, targets, ()) => .getDiagnostics stacked targets)
    (fun | .getDiagnostics stacked targets => some (stacked, targets, ()) | _ => none) <|
  simpleVariant "PLpgSQL_stmt_open" "struct Open"
    (.required "curvar" .int32 <| .defaulted "cursor_options" .int32 0 <| .optional "argquery" leaf <|
      .optional "query" leaf <| .optional "dynquery" leaf <| .listed "params" leaf .nil)
    (fun (cursor, options, arguments, query, dynamic, parameters, ()) =>
      .openCursor cursor options arguments query dynamic parameters)
    (fun
      | .openCursor cursor options arguments query dynamic parameters =>
        some (cursor, options, arguments, query, dynamic, parameters, ())
      | _ => none) <|
  simpleVariant "PLpgSQL_stmt_fetch" "struct Fetch"
    (.optional "target" datum <| .required "curvar" .int32 <|
      .defaulted "direction" Direction.shape .forward <| .defaulted "how_many" .int64 1 <|
      .optional "expr" leaf <| .flag "is_move" <| .flag "returns_multiple_rows" .nil)
    (fun (target, cursor, direction, count, amount, isMove, severalRows, ()) =>
      .fetch target cursor direction count amount isMove severalRows)
    (fun
      | .fetch target cursor direction count amount isMove severalRows =>
        some (target, cursor, direction, count, amount, isMove, severalRows, ())
      | _ => none) <|
  simpleVariant "PLpgSQL_stmt_close" "struct Close" (.required "curvar" .int32 .nil)
    (fun (cursor, ()) => .closeCursor cursor) (fun | .closeCursor cursor => some (cursor, ()) | _ => none) <|
  simpleVariant "PLpgSQL_stmt_perform" "struct Perform" (.required "expr" leaf .nil)
    (fun (query, ()) => .perform query) (fun | .perform query => some (query, ()) | _ => none) <|
  simpleVariant "PLpgSQL_stmt_call" "struct Call"
    (.required "expr" leaf (.defaulted "is_call" .bool false (.optional "target" datum .nil)))
    (fun (sql, isCall, target, ()) => .call sql isCall target)
    (fun | .call sql isCall target => some (sql, isCall, target, ()) | _ => none) <|
  simpleVariant "PLpgSQL_stmt_commit" "struct Transaction" (.flag "chain" .nil)
    (fun (chain, ()) => .commit chain) (fun | .commit chain => some (chain, ()) | _ => none) <|
  simpleVariant "PLpgSQL_stmt_rollback" "struct Transaction" (.flag "chain" .nil)
    (fun (chain, ()) => .rollback chain) (fun | .rollback chain => some (chain, ()) | _ => none) <|
  simpleVariant "PLpgSQL_stmt_set" "struct Set" (.required "expr" leaf .nil)
    (fun (sql, ()) => .set sql) (fun | .set sql => some (sql, ()) | _ => none) <|
  rest

/-! ## Statements with statements inside -/

variable (below : Shape Stmt)

/-- A handler. -/
def Handler.shape : Shape Handler :=
  .convert (fun (line, conditions, action, ()) => .ok ⟨line, conditions, action⟩)
    (fun h => (h.line, h.conditions, h.action, ()))
    (.record "struct ExceptionHandler"
      (.line (.tagged "conditions" "PLpgSQL_condition" conditionShape (.listed "action" below .nil))))

/-- The handlers of a block. -/
def Handlers.shape : Shape (List Handler) :=
  .convert (fun (handlers, ()) => .ok handlers) (fun handlers => (handlers, ()))
    (.record "struct ExceptionBlock"
      (.tagged "exc_list" "PLpgSQL_exception" (Handler.shape below) .nil))

/-- A block. -/
def Block.shape : Shape Block :=
  .convert (fun (line, label, body, handlers, ()) => .ok ⟨line, label, body, handlers⟩)
    (fun b => (b.line, b.label, b.body, b.handlers, ()))
    (.record "struct Block"
      (.line <| .label <| .listed "body" below <|
        .optional "exceptions" (.tagged "PLpgSQL_exception_block" (Handlers.shape below)) .nil))

/-- An arm, whose condition is the named member. -/
def Arm.shape (title condition : String) : Shape Arm :=
  .convert (fun (line, condition, body, ()) => .ok ⟨line, condition, body⟩)
    (fun a => (a.line, a.condition, a.body, ()))
    (.record title (.line (.required condition leaf (.listed "stmts" below .nil))))

/-- The loops over something that is known beforehand. -/
def staticLoops (rest : Variants Stmt) : Variants Stmt :=
  loopVariant "PLpgSQL_stmt_loop" "struct Loop" (.listed "body" below .nil)
    (fun (body, ()) => (.forever, body))
    (fun | .forever, body => some (body, ()) | _, _ => none) <|
  loopVariant "PLpgSQL_stmt_while" "struct While" (.required "cond" leaf (.listed "body" below .nil))
    (fun (condition, body, ()) => (.whilst condition, body))
    (fun | .whilst condition, body => some (condition, body, ()) | _, _ => none) <|
  loopVariant "PLpgSQL_stmt_fori" "struct ForI"
    (.required "var" datum <| .required "lower" leaf <| .required "upper" leaf <| .optional "step" leaf <|
      .cons "reverse" boolOrNumberShape (some false) (some false) (fun b => !b) <|
      .listed "body" below .nil)
    (fun (target, lower, upper, step, reverse, body, ()) => (.range target lower upper step reverse, body))
    (fun
      | .range target lower upper step reverse, body =>
        some (target, lower, upper, step, reverse, body, ())
      | _, _ => none) <|
  loopVariant "PLpgSQL_stmt_fors" "struct ForS"
    (.required "var" datum (.listed "body" below (.required "query" leaf .nil)))
    (fun (target, body, sql, ()) => (.query target sql, body))
    (fun | .query target sql, body => some (target, body, sql, ()) | _, _ => none) <|
  loopVariant "PLpgSQL_stmt_forc" "struct ForC"
    (.required "var" datum <| .listed "body" below <| .required "curvar" .int32 <|
      .optional "argquery" leaf .nil)
    (fun (target, body, number, arguments, ()) => (.cursor target number arguments, body))
    (fun | .cursor target number arguments, body => some (target, body, number, arguments, ()) | _, _ => none) <|
  loopVariant "PLpgSQL_stmt_foreach_a" "struct ForEachA"
    (.required "varno" .int32 <| .defaulted "slice" .int32 0 <| .required "expr" leaf <|
      .listed "body" below .nil)
    (fun (number, slice, value, body, ()) => (.array number slice value, body))
    (fun | .array number slice value, body => some (number, slice, value, body, ()) | _, _ => none) <|
  rest

/-- The loop over the rows of a query that is put together when it runs. -/
def dynamicLoop (rest : Variants Stmt) : Variants Stmt :=
  loopVariant "PLpgSQL_stmt_dynfors" "struct DynFors"
    (.required "var" datum <| .listed "body" below <| .required "query" leaf <|
      .listed "params" leaf .nil)
    (fun (target, body, sql, parameters, ()) => (.dynamic target sql parameters, body))
    (fun | .dynamic target sql parameters, body => some (target, body, sql, parameters, ()) | _, _ => none) <|
  rest

/-- All statements. -/
def Stmt.variants : Variants Stmt :=
  .holding "PLpgSQL_stmt_block" (Block.shape below) .block (fun | .block b => some b | _ => none) <|
  simpleVariant "PLpgSQL_stmt_assign" "struct Assign" (.required "varno" .int32 (.required "expr" leaf .nil))
    (fun (number, value, ()) => .assign number value)
    (fun | .assign number value => some (number, value, ()) | _ => none) <|
  .holding "PLpgSQL_stmt_if"
    (.record "struct If"
      (.line <| .required "cond" leaf <| .listed "then_body" below <|
        .tagged "elsif_list" "PLpgSQL_if_elsif" (Arm.shape leaf below "struct Elsif" "cond") <|
        .listed "else_body" below .nil))
    (fun (line, condition, body, arms, otherwise, ()) => .conditional line condition body arms otherwise)
    (fun
      | .conditional line condition body arms otherwise =>
        some (line, condition, body, arms, otherwise, ())
      | _ => none) <|
  .holding "PLpgSQL_stmt_case"
    (.record "struct Case"
      (.line <| .optional "t_expr" leaf <| .defaulted "t_varno" .int32 0 <|
        .tagged "case_when_list" "PLpgSQL_case_when" (Arm.shape leaf below "struct CaseWhen" "expr") <|
        .flag "have_else" <| .listed "else_stmts" below .nil))
    (fun (line, operand, number, arms, hasElse, otherwise, ()) =>
      .choice line operand number arms hasElse otherwise)
    (fun
      | .choice line operand number arms hasElse otherwise =>
        some (line, operand, number, arms, hasElse, otherwise, ())
      | _ => none) <|
  staticLoops leaf datum below <|
  earlySimple leaf datum <|
  dynamicLoop leaf datum below <|
  lateSimple leaf datum <|
  .nil

/-- Statements up to a depth. -/
def Stmt.shape : (level : Nat) → Shape Stmt
  | 0 => .exhausted
  | level + 1 => .choice (Stmt.variants leaf datum (Stmt.shape level))

end

end Routine
