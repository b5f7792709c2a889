import Routine.Layout.CaseArm
import Routine.Layout.Declaration
import Routine.Layout.Simple
import Routine.Plan

/-!
# Statements and blocks

Statements are laid out in order. What is planned for nested blocks goes along: the first block in a
line takes what is planned for that line, and what nobody takes is left over at the end.
-/

namespace Routine

/-- What was laid out, and what is still planned. -/
abbrev Laid := List Line × Pending

namespace Layout

variable (y : Layout)

/-- The head of a loop. -/
def head : LoopHead → String
  | .forever => y.keyword "LOOP"
  | .whilst condition => spaced [y.keyword "WHILE", y.leaf condition, y.keyword "LOOP"]
  | .range target lower upper step reverse =>
    spaced <|
      [y.keyword "FOR", y.function.referenceFor target, y.keyword "IN"] ++
        (if reverse then [y.keyword "REVERSE"] else []) ++
        [y.leaf lower ++ ".." ++ y.leaf upper] ++
        (match step with
          | some l => [y.keyword "BY", y.leaf l]
          | none => []) ++
        [y.keyword "LOOP"]
  | .query target sql =>
    spaced [y.keyword "FOR", y.function.referenceFor target, y.keyword "IN", y.leaf sql, y.keyword "LOOP"]
  | .cursor target number arguments =>
    let cursor := y.function.reference number ++ (match arguments with
      | some l => y.cursorArguments l
      | none => "")
    spaced [y.keyword "FOR", y.function.referenceFor target, y.keyword "IN", cursor, y.keyword "LOOP"]
  | .array number slice value =>
    spaced <|
      [y.keyword "FOREACH", y.function.reference number] ++
        (if 0 < slice then [y.keyword "SLICE", toString slice.toInt] else []) ++
        [y.keyword "IN ARRAY", y.leaf value, y.keyword "LOOP"]
  | .dynamic target sql parameters =>
    spaced
      [y.keyword "FOR", y.function.referenceFor target, y.keyword "IN EXECUTE",
        y.leaf sql ++ y.parameters parameters, y.keyword "LOOP"]

/-- The condition of an arm. With an operand, it is the values that the operand is compared with. -/
def armCondition (hasOperand : Bool) (condition : Leaf) : String :=
  let text := y.leaf condition
  if hasOperand then (CaseArm.values? text).getD text else text

/-- The line before the statements of a handler. -/
def handlerHead (conditions : List String) : String :=
  spaced [y.keyword "WHEN",
    String.intercalate (" " ++ y.keyword "OR" ++ " ") (conditions.map y.condition), y.keyword "THEN"]

/-- The head of a `CASE`. -/
def caseHead (operand : Option Leaf) : String :=
  spaced (y.keyword "CASE" :: operand.toList.map y.leaf)

end Layout

mutual

/-- The lines of a statement. -/
def Stmt.lines (y : Layout) (depth : Nat) (pending : Pending) : Stmt → Laid
  | .block b => b.lines y depth (pending.find b.line) false (pending.erase b.line)
  | .simple _ s => ([⟨depth, y.simple s ++ ";"⟩], pending)
  | .conditional _ condition body arms otherwise =>
    let (thenLines, pending) := Stmts.lines y (depth + 1) pending body
    let (armLines, pending) := Arms.conditionalLines y depth pending arms
    let (elseLines, pending) := Stmts.lines y (depth + 1) pending otherwise
    (⟨depth, spaced [y.keyword "IF", y.leaf condition, y.keyword "THEN"]⟩ :: thenLines ++ armLines ++
      (if otherwise.isEmpty then [] else ⟨depth, y.keyword "ELSE"⟩ :: elseLines) ++
      [⟨depth, y.keyword "END IF;"⟩], pending)
  | .choice _ operand _ arms hasElse otherwise =>
    let (armLines, pending) := Arms.choiceLines y depth operand.isSome pending arms
    if hasElse then
      let (elseLines, pending) := Stmts.lines y (depth + 2) pending otherwise
      (⟨depth, y.caseHead operand⟩ :: armLines ++ ⟨depth + 1, y.keyword "ELSE"⟩ :: elseLines ++
        [⟨depth, y.keyword "END CASE;"⟩], pending)
    else (⟨depth, y.caseHead operand⟩ :: armLines ++ [⟨depth, y.keyword "END CASE;"⟩], pending)
  | .loop _ label head body =>
    let (bodyLines, pending) := Stmts.lines y (depth + 1) pending body
    (Layout.labelLines depth label ++ ⟨depth, y.head head⟩ :: bodyLines ++
      [⟨depth, y.closing "END LOOP" label ++ ";"⟩], pending)

/-- The lines of statements. -/
def Stmts.lines (y : Layout) (depth : Nat) (pending : Pending) : List Stmt → Laid
  | [] => ([], pending)
  | s :: ss =>
    let (first, pending) := s.lines y depth pending
    let (rest, pending) := Stmts.lines y depth pending ss
    (first ++ rest, pending)

/-- The lines of a block with the declarations of the data in the places. Only the outermost block has
no semicolon after it. -/
def Block.lines (y : Layout) (depth : Nat) (places : List Nat) (outermost : Bool) (pending : Pending) :
    Block → Laid
  | ⟨_, label, body, handlers⟩ =>
    let (bodyLines, pending) := Stmts.lines y (depth + 1) pending body
    let (handlerLines, pending) := Handlers.lines? y depth pending handlers
    (Layout.labelLines depth label ++ y.declarations depth places ++ ⟨depth, y.keyword "BEGIN"⟩ ::
      bodyLines ++ handlerLines ++
      [⟨depth, y.closing "END" label ++ (if outermost then "" else ";")⟩], pending)

/-- The lines of handlers, if there are any. -/
def Handlers.lines? (y : Layout) (depth : Nat) (pending : Pending) : Option (List Handler) → Laid
  | none => ([], pending)
  | some hs =>
    let (lines, pending) := Handlers.lines y depth pending hs
    (⟨depth, y.keyword "EXCEPTION"⟩ :: lines, pending)

/-- The lines of handlers. -/
def Handlers.lines (y : Layout) (depth : Nat) (pending : Pending) : List Handler → Laid
  | [] => ([], pending)
  | ⟨_, conditions, action⟩ :: hs =>
    let (first, pending) := Stmts.lines y (depth + 2) pending action
    let (rest, pending) := Handlers.lines y depth pending hs
    (⟨depth + 1, y.handlerHead conditions⟩ :: first ++ rest, pending)

/-- The lines of the further arms of a conditional. -/
def Arms.conditionalLines (y : Layout) (depth : Nat) (pending : Pending) : List Arm → Laid
  | [] => ([], pending)
  | ⟨_, condition, body⟩ :: as =>
    let (first, pending) := Stmts.lines y (depth + 1) pending body
    let (rest, pending) := Arms.conditionalLines y depth pending as
    (⟨depth, spaced [y.keyword "ELSIF", y.leaf condition, y.keyword "THEN"]⟩ :: first ++ rest, pending)

/-- The lines of the arms of a `CASE`. -/
def Arms.choiceLines (y : Layout) (depth : Nat) (hasOperand : Bool) (pending : Pending) :
    List Arm → Laid
  | [] => ([], pending)
  | ⟨_, condition, body⟩ :: as =>
    let (first, pending) := Stmts.lines y (depth + 2) pending body
    let (rest, pending) := Arms.choiceLines y depth hasOperand pending as
    (⟨depth + 1, spaced [y.keyword "WHEN", y.armCondition hasOperand condition, y.keyword "THEN"]⟩ ::
      first ++ rest, pending)

end

/-! ## Routines -/

namespace Layout

/-- The lines of the routine, and what is planned for blocks that it does not have. -/
def laid (y : Layout) : Laid :=
  let plan := Plan.ofFunction y.function
  y.function.action.lines y 0 plan.topLevel true plan.nested

/-- The lines of the routine. -/
def lines (y : Layout) : List Line := y.laid.1

end Layout

namespace Function

/-- The layout of a routine. Without another backend, SQL is written as the dialect writes it. -/
def layout (kind : Option ReturnKind) (capitals : Bool) (f : Function)
    (backend : Sql.Backend := .postgres) : Layout :=
  ⟨backend, f, kind, capitals⟩

/-- The body of a routine, from its label or declarations to its last `END`. -/
def body (format : Format) (kind : Option ReturnKind) (f : Function)
    (backend : Sql.Backend := .postgres) : String :=
  format.join (f.layout kind format.capitals backend).lines

end Function

namespace ParseTree

/-- The bodies of all routines. -/
def bodies (format : Format) (kind : Option ReturnKind) (t : ParseTree)
    (backend : Sql.Backend := .postgres) : List String :=
  t.map fun f => f.body format kind backend

end ParseTree
end Routine
