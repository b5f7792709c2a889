import Routine.Statement

/-!
# Leaves and where they are

The leaves of a routine are the SQL texts and the types that belong to it: those of its table of data,
then those of its statements, each before the statements inside. The data inside statements are
copies of data of the table, and their leaves do not count.

Every leaf has a path, which names the way to it through the tree. `slots` lists the leaves with their
paths, and `mapSlots` replaces each leaf by what a function makes of it and its path. The two agree:
the slots of a mapped routine are the mapped slots (`Function.slots_mapSlots`).
-/

namespace Routine

/-! ## Paths -/

/-- One step down a tree: a member, or an item of a list that is a member. -/
structure Step where
  name : String
  index : Option Nat
deriving DecidableEq, Repr

/-- The way to a leaf. -/
abbrev Path := List Step

/-- A step to a member. -/
def Step.member (name : String) : Step := ⟨name, none⟩

/-- A step to an item. -/
def Step.item (name : String) (index : Nat) : Step := ⟨name, some index⟩

/-- The step in words. -/
def Step.render (s : Step) : String :=
  match s.index with
  | none => s.name
  | some i => s.name ++ "[" ++ toString i ++ "]"

/-- The path in words. -/
def Path.render (p : Path) : String :=
  String.intercalate "." (p.map Step.render)

/-- The path to a member. -/
def Path.member (p : Path) (name : String) : Path := p ++ [.member name]

/-- The path to an item. -/
def Path.item (p : Path) (name : String) (index : Nat) : Path := p ++ [.item name index]

/-! ## Slots -/

/-- A leaf of either kind. -/
inductive Slot where
  | leaf (l : Leaf)
  | type (t : TypeRef)
deriving Repr

/-- The mode of a leaf that holds SQL. -/
def Slot.mode? : Slot → Option ParseMode
  | leaf l => some l.mode
  | type _ => none

/-- A leaf and the way to it. -/
abbrev Placed := Path × Slot

/-- What is done to each leaf. -/
structure Mapper where
  leaf : Path → Leaf → Leaf
  type : Path → TypeRef → TypeRef

namespace Mapper

/-- What is done to a leaf of either kind. -/
def slot (m : Mapper) : Placed → Placed
  | (p, .leaf l) => (p, .leaf (m.leaf p l))
  | (p, .type t) => (p, .type (m.type p t))

end Mapper

/-- The slot of a leaf under a member. -/
def leafSlot (p : Path) (name : String) (l : Leaf) : List Placed :=
  [(p.member name, .leaf l)]

/-- The slot of a leaf that may be missing. -/
def leafSlot? (p : Path) (name : String) (l : Option Leaf) : List Placed :=
  match l with
  | none => []
  | some l => leafSlot p name l

/-- The slot of a type that may be missing. -/
def typeSlot? (p : Path) (name : String) (t : Option TypeRef) : List Placed :=
  match t with
  | none => []
  | some t => [(p.member name, .type t)]

/-- The slots of the items of a list, from the index on. -/
def itemSlots (p : Path) (name : String) (index : Nat) : List Leaf → List Placed
  | [] => []
  | l :: ls => (p.item name index, .leaf l) :: itemSlots p name (index + 1) ls

/-- The slots of what raised conditions are given, from the index on. -/
def optionSlots (p : Path) (index : Nat) : List RaiseOption → List Placed
  | [] => []
  | o :: os => leafSlot (p.item "options" index) "expr" o.value ++ optionSlots p (index + 1) os

namespace Mapper

variable (m : Mapper)

/-- The leaf under a member, mapped. -/
def under (p : Path) (name : String) (l : Leaf) : Leaf := m.leaf (p.member name) l

/-- The leaf under a member, mapped if it is there. -/
def under? (p : Path) (name : String) (l : Option Leaf) : Option Leaf := l.map (m.under p name)

/-- The type under a member, mapped if it is there. -/
def typeUnder? (p : Path) (name : String) (t : Option TypeRef) : Option TypeRef :=
  t.map (m.type (p.member name))

/-- The items of a list, mapped from the index on. -/
def items (p : Path) (name : String) (index : Nat) : List Leaf → List Leaf
  | [] => []
  | l :: ls => m.leaf (p.item name index) l :: items p name (index + 1) ls

/-- What raised conditions are given, mapped from the index on. -/
def options (p : Path) (index : Nat) : List RaiseOption → List RaiseOption
  | [] => []
  | o :: os => { o with value := m.under (p.item "options" index) "expr" o.value } :: options p (index + 1) os

end Mapper

/-! ## Simple statements and loop heads -/

namespace Simple

/-- The leaves of a simple statement. -/
def slots (p : Path) : Simple → List Placed
  | assign _ value => leafSlot p "expr" value
  | exit _ _ condition => leafSlot? p "cond" condition
  | ret value _ => leafSlot? p "expr" value
  | returnNext value _ => leafSlot? p "expr" value
  | returnQuery query dynamic parameters =>
    leafSlot? p "query" query ++ leafSlot? p "dynquery" dynamic ++ itemSlots p "params" 0 parameters
  | raise _ _ _ parameters options => itemSlots p "params" 0 parameters ++ optionSlots p 0 options
  | assert condition message => leafSlot p "cond" condition ++ leafSlot? p "message" message
  | execute sql _ => leafSlot p "sqlstmt" sql
  | executeDynamic query _ parameters => leafSlot p "query" query ++ itemSlots p "params" 0 parameters
  | getDiagnostics _ _ => []
  | openCursor _ _ arguments query dynamic parameters =>
    leafSlot? p "argquery" arguments ++ leafSlot? p "query" query ++ leafSlot? p "dynquery" dynamic ++
      itemSlots p "params" 0 parameters
  | fetch _ _ _ _ amount _ _ => leafSlot? p "expr" amount
  | closeCursor _ => []
  | perform query => leafSlot p "expr" query
  | call sql _ _ => leafSlot p "expr" sql
  | commit _ => []
  | rollback _ => []
  | set sql => leafSlot p "expr" sql

/-- The simple statement with its leaves mapped. -/
def mapSlots (m : Mapper) (p : Path) : Simple → Simple
  | assign number value => assign number (m.under p "expr" value)
  | exit isExit label condition => exit isExit label (m.under? p "cond" condition)
  | ret value number => ret (m.under? p "expr" value) number
  | returnNext value number => returnNext (m.under? p "expr" value) number
  | returnQuery query dynamic parameters =>
    returnQuery (m.under? p "query" query) (m.under? p "dynquery" dynamic) (m.items p "params" 0 parameters)
  | raise severity condition message parameters options =>
    raise severity condition message (m.items p "params" 0 parameters) (m.options p 0 options)
  | assert condition message => assert (m.under p "cond" condition) (m.under? p "message" message)
  | execute sql into => execute (m.under p "sqlstmt" sql) into
  | executeDynamic query into parameters =>
    executeDynamic (m.under p "query" query) into (m.items p "params" 0 parameters)
  | getDiagnostics stacked targets => getDiagnostics stacked targets
  | openCursor cursor options arguments query dynamic parameters =>
    openCursor cursor options (m.under? p "argquery" arguments) (m.under? p "query" query)
      (m.under? p "dynquery" dynamic) (m.items p "params" 0 parameters)
  | fetch target cursor direction count amount isMove severalRows =>
    fetch target cursor direction count (m.under? p "expr" amount) isMove severalRows
  | closeCursor cursor => closeCursor cursor
  | perform query => perform (m.under p "expr" query)
  | call sql isCall target => call (m.under p "expr" sql) isCall target
  | commit chain => commit chain
  | rollback chain => rollback chain
  | set sql => set (m.under p "expr" sql)

end Simple

namespace LoopHead

/-- The leaves of a loop head. -/
def slots (p : Path) : LoopHead → List Placed
  | forever => []
  | whilst condition => leafSlot p "cond" condition
  | range _ lower upper step _ =>
    leafSlot p "lower" lower ++ leafSlot p "upper" upper ++ leafSlot? p "step" step
  | query _ sql => leafSlot p "query" sql
  | cursor _ _ arguments => leafSlot? p "argquery" arguments
  | array _ _ value => leafSlot p "expr" value
  | dynamic _ sql parameters => leafSlot p "query" sql ++ itemSlots p "params" 0 parameters

/-- The loop head with its leaves mapped. -/
def mapSlots (m : Mapper) (p : Path) : LoopHead → LoopHead
  | forever => forever
  | whilst condition => whilst (m.under p "cond" condition)
  | range target lower upper step reverse =>
    range target (m.under p "lower" lower) (m.under p "upper" upper) (m.under? p "step" step) reverse
  | query target sql => query target (m.under p "query" sql)
  | cursor target number arguments => cursor target number (m.under? p "argquery" arguments)
  | array number slice value => array number slice (m.under p "expr" value)
  | dynamic target sql parameters =>
    dynamic target (m.under p "query" sql) (m.items p "params" 0 parameters)

end LoopHead

/-! ## Statements -/

mutual

/-- The leaves of a statement. -/
def Stmt.slots (p : Path) : Stmt → List Placed
  | .block b => b.slots p
  | .simple _ s => s.slots p
  | .conditional _ condition body arms otherwise =>
    leafSlot p "cond" condition ++ Stmts.slots p "then_body" 0 body ++
      Arms.slots p "elsif_list" "cond" 0 arms ++ Stmts.slots p "else_body" 0 otherwise
  | .choice _ operand _ arms _ otherwise =>
    leafSlot? p "t_expr" operand ++ Arms.slots p "case_when_list" "expr" 0 arms ++
      Stmts.slots p "else_stmts" 0 otherwise
  | .loop _ _ head body => head.slots p ++ Stmts.slots p "body" 0 body

/-- The leaves of statements that are items of the named member, from the index on. -/
def Stmts.slots (p : Path) (name : String) (index : Nat) : List Stmt → List Placed
  | [] => []
  | s :: ss => s.slots (p.item name index) ++ Stmts.slots p name (index + 1) ss

/-- The leaves of a block. -/
def Block.slots (p : Path) : Block → List Placed
  | ⟨_, _, body, handlers⟩ => Stmts.slots p "body" 0 body ++ Handlers.slots? p handlers

/-- The leaves of handlers, if there are any. -/
def Handlers.slots? (p : Path) : Option (List Handler) → List Placed
  | none => []
  | some hs => Handlers.slots (p.member "exceptions") 0 hs

/-- The leaves of handlers, from the index on. -/
def Handlers.slots (p : Path) (index : Nat) : List Handler → List Placed
  | [] => []
  | ⟨_, _, action⟩ :: hs =>
    Stmts.slots (p.item "exc_list" index) "action" 0 action ++ Handlers.slots p (index + 1) hs

/-- The leaves of arms, from the index on. -/
def Arms.slots (p : Path) (name condition : String) (index : Nat) : List Arm → List Placed
  | [] => []
  | ⟨_, l, body⟩ :: as =>
    leafSlot (p.item name index) condition l ++ Stmts.slots (p.item name index) "stmts" 0 body ++
      Arms.slots p name condition (index + 1) as

end

mutual

/-- The statement with its leaves mapped. -/
def Stmt.mapSlots (m : Mapper) (p : Path) : Stmt → Stmt
  | .block b => .block (b.mapSlots m p)
  | .simple line s => .simple line (s.mapSlots m p)
  | .conditional line condition body arms otherwise =>
    .conditional line (m.under p "cond" condition) (Stmts.mapSlots m p "then_body" 0 body)
      (Arms.mapSlots m p "elsif_list" "cond" 0 arms) (Stmts.mapSlots m p "else_body" 0 otherwise)
  | .choice line operand number arms hasElse otherwise =>
    .choice line (m.under? p "t_expr" operand) number (Arms.mapSlots m p "case_when_list" "expr" 0 arms)
      hasElse (Stmts.mapSlots m p "else_stmts" 0 otherwise)
  | .loop line label head body =>
    .loop line label (head.mapSlots m p) (Stmts.mapSlots m p "body" 0 body)

/-- The statements with their leaves mapped, from the index on. -/
def Stmts.mapSlots (m : Mapper) (p : Path) (name : String) (index : Nat) : List Stmt → List Stmt
  | [] => []
  | s :: ss => s.mapSlots m (p.item name index) :: Stmts.mapSlots m p name (index + 1) ss

/-- The block with its leaves mapped. -/
def Block.mapSlots (m : Mapper) (p : Path) : Block → Block
  | ⟨line, label, body, handlers⟩ =>
    ⟨line, label, Stmts.mapSlots m p "body" 0 body, Handlers.mapSlots? m p handlers⟩

/-- The handlers with their leaves mapped, if there are any. -/
def Handlers.mapSlots? (m : Mapper) (p : Path) : Option (List Handler) → Option (List Handler)
  | none => none
  | some hs => some (Handlers.mapSlots m (p.member "exceptions") 0 hs)

/-- The handlers with their leaves mapped, from the index on. -/
def Handlers.mapSlots (m : Mapper) (p : Path) (index : Nat) : List Handler → List Handler
  | [] => []
  | ⟨line, conditions, action⟩ :: hs =>
    ⟨line, conditions, Stmts.mapSlots m (p.item "exc_list" index) "action" 0 action⟩ ::
      Handlers.mapSlots m p (index + 1) hs

/-- The arms with their leaves mapped, from the index on. -/
def Arms.mapSlots (m : Mapper) (p : Path) (name condition : String) (index : Nat) :
    List Arm → List Arm
  | [] => []
  | ⟨line, l, body⟩ :: as =>
    ⟨line, m.under (p.item name index) condition l, Stmts.mapSlots m (p.item name index) "stmts" 0 body⟩ ::
      Arms.mapSlots m p name condition (index + 1) as

end

/-! ## Data and routines -/

namespace Datum

/-- The leaves of a datum. -/
def slots (p : Path) : Datum → List Placed
  | scalar v =>
    typeSlot? p "datatype" v.type ++ leafSlot? p "default_val" v.initial ++
      leafSlot? p "cursor_explicit_expr" v.cursorQuery
  | record r => typeSlot? p "datatype" r.type
  | row _ => []
  | field _ => []

/-- The datum with its leaves mapped. -/
def mapSlots (m : Mapper) (p : Path) : Datum → Datum
  | scalar v =>
    scalar { v with
      type := m.typeUnder? p "datatype" v.type
      initial := m.under? p "default_val" v.initial
      cursorQuery := m.under? p "cursor_explicit_expr" v.cursorQuery }
  | record r => record { r with type := m.typeUnder? p "datatype" r.type }
  | row r => row r
  | field f => field f

end Datum

/-- The leaves of data, from the index on. -/
def Data.slots (p : Path) (index : Nat) : List Datum → List Placed
  | [] => []
  | d :: ds => d.slots (p.item "datums" index) ++ Data.slots p (index + 1) ds

/-- The data with their leaves mapped, from the index on. -/
def Data.mapSlots (m : Mapper) (p : Path) (index : Nat) : List Datum → List Datum
  | [] => []
  | d :: ds => d.mapSlots m (p.item "datums" index) :: Data.mapSlots m p (index + 1) ds

namespace Function

/-- The path of a routine. -/
def path (index : Nat) : Path := [.item "functions" index]

/-- The leaves of a routine. -/
def slots (index : Nat) (f : Function) : List Placed :=
  Data.slots (path index) 0 f.data ++ f.action.slots ((path index).member "action")

/-- The routine with its leaves mapped. -/
def mapSlots (m : Mapper) (index : Nat) (f : Function) : Function :=
  ⟨Data.mapSlots m (path index) 0 f.data, f.action.mapSlots m ((path index).member "action")⟩

end Function

namespace ParseTree

/-- The leaves of the routines, from the index on. -/
def slotsFrom (index : Nat) : ParseTree → List Placed
  | [] => []
  | f :: fs => f.slots index ++ slotsFrom (index + 1) fs

/-- The leaves of all routines. -/
def slots (t : ParseTree) : List Placed := slotsFrom 0 t

/-- The routines with their leaves mapped, from the index on. -/
def mapSlotsFrom (m : Mapper) (index : Nat) : ParseTree → ParseTree
  | [] => []
  | f :: fs => f.mapSlots m index :: mapSlotsFrom m (index + 1) fs

/-- All routines with their leaves mapped. -/
def mapSlots (m : Mapper) (t : ParseTree) : ParseTree := mapSlotsFrom m 0 t

end ParseTree

/-! ## Slots of what was mapped -/

section

variable (m : Mapper)

theorem leafSlot_under (p : Path) (name : String) (l : Leaf) :
    leafSlot p name (m.under p name l) = (leafSlot p name l).map m.slot := rfl

theorem leafSlot?_under? (p : Path) (name : String) (l : Option Leaf) :
    leafSlot? p name (m.under? p name l) = (leafSlot? p name l).map m.slot := by
  cases l <;> rfl

theorem typeSlot?_typeUnder? (p : Path) (name : String) (t : Option TypeRef) :
    typeSlot? p name (m.typeUnder? p name t) = (typeSlot? p name t).map m.slot := by
  cases t <;> rfl

theorem itemSlots_items (p : Path) (name : String) (i : Nat) (ls : List Leaf) :
    itemSlots p name i (m.items p name i ls) = (itemSlots p name i ls).map m.slot := by
  induction ls generalizing i with
  | nil => rfl
  | cons l ls ih => simp [Mapper.items, itemSlots, ih, Mapper.slot]

theorem optionSlots_options (p : Path) (i : Nat) (os : List RaiseOption) :
    optionSlots p i (m.options p i os) = (optionSlots p i os).map m.slot := by
  induction os generalizing i with
  | nil => rfl
  | cons o os ih => simp [Mapper.options, optionSlots, ih, leafSlot_under]

theorem Simple.slots_mapSlots (p : Path) (s : Simple) :
    (s.mapSlots m p).slots p = (s.slots p).map m.slot := by
  cases s <;>
    simp [Simple.mapSlots, Simple.slots, leafSlot_under, leafSlot?_under?, itemSlots_items,
      optionSlots_options]

theorem LoopHead.slots_mapSlots (p : Path) (h : LoopHead) :
    (h.mapSlots m p).slots p = (h.slots p).map m.slot := by
  cases h <;>
    simp [LoopHead.mapSlots, LoopHead.slots, leafSlot_under, leafSlot?_under?, itemSlots_items]

mutual

theorem Stmt.slots_mapSlots (p : Path) : (s : Stmt) →
    (s.mapSlots m p).slots p = (s.slots p).map m.slot
  | .block b => by simp [Stmt.mapSlots, Stmt.slots, Block.slots_mapSlots p b]
  | .simple _ s => by simp [Stmt.mapSlots, Stmt.slots, Simple.slots_mapSlots]
  | .conditional _ _ body arms otherwise => by
    simp [Stmt.mapSlots, Stmt.slots, leafSlot_under, Stmts.slots_mapSlots p "then_body" 0 body,
      Arms.slots_mapSlots p "elsif_list" "cond" 0 arms, Stmts.slots_mapSlots p "else_body" 0 otherwise]
  | .choice _ _ _ arms _ otherwise => by
    simp [Stmt.mapSlots, Stmt.slots, leafSlot?_under?, Arms.slots_mapSlots p "case_when_list" "expr" 0 arms,
      Stmts.slots_mapSlots p "else_stmts" 0 otherwise]
  | .loop _ _ head body => by
    simp [Stmt.mapSlots, Stmt.slots, LoopHead.slots_mapSlots, Stmts.slots_mapSlots p "body" 0 body]

theorem Stmts.slots_mapSlots (p : Path) (name : String) (i : Nat) : (ss : List Stmt) →
    Stmts.slots p name i (Stmts.mapSlots m p name i ss) = (Stmts.slots p name i ss).map m.slot
  | [] => by simp [Stmts.mapSlots, Stmts.slots]
  | s :: ss => by
    simp [Stmts.mapSlots, Stmts.slots, Stmt.slots_mapSlots _ s, Stmts.slots_mapSlots p name (i + 1) ss]

theorem Block.slots_mapSlots (p : Path) : (b : Block) →
    (b.mapSlots m p).slots p = (b.slots p).map m.slot
  | ⟨_, _, body, handlers⟩ => by
    simp [Block.mapSlots, Block.slots, Stmts.slots_mapSlots p "body" 0 body,
      Handlers.slots?_mapSlots? p handlers]

theorem Handlers.slots?_mapSlots? (p : Path) : (hs : Option (List Handler)) →
    Handlers.slots? p (Handlers.mapSlots? m p hs) = (Handlers.slots? p hs).map m.slot
  | none => by simp [Handlers.mapSlots?, Handlers.slots?]
  | some hs => by simp [Handlers.mapSlots?, Handlers.slots?, Handlers.slots_mapSlots _ 0 hs]

theorem Handlers.slots_mapSlots (p : Path) (i : Nat) : (hs : List Handler) →
    Handlers.slots p i (Handlers.mapSlots m p i hs) = (Handlers.slots p i hs).map m.slot
  | [] => by simp [Handlers.mapSlots, Handlers.slots]
  | ⟨_, _, action⟩ :: hs => by
    simp [Handlers.mapSlots, Handlers.slots, Stmts.slots_mapSlots _ "action" 0 action,
      Handlers.slots_mapSlots p (i + 1) hs]

theorem Arms.slots_mapSlots (p : Path) (name condition : String) (i : Nat) : (as : List Arm) →
    Arms.slots p name condition i (Arms.mapSlots m p name condition i as) =
      (Arms.slots p name condition i as).map m.slot
  | [] => by simp [Arms.mapSlots, Arms.slots]
  | ⟨_, _, body⟩ :: as => by
    simp [Arms.mapSlots, Arms.slots, leafSlot_under, Stmts.slots_mapSlots _ "stmts" 0 body,
      Arms.slots_mapSlots p name condition (i + 1) as]

end

theorem Datum.slots_mapSlots (p : Path) (d : Datum) :
    (d.mapSlots m p).slots p = (d.slots p).map m.slot := by
  cases d <;> simp [Datum.mapSlots, Datum.slots, typeSlot?_typeUnder?, leafSlot?_under?]

theorem Data.slots_mapSlots (p : Path) (i : Nat) (ds : List Datum) :
    Data.slots p i (Data.mapSlots m p i ds) = (Data.slots p i ds).map m.slot := by
  induction ds generalizing i with
  | nil => rfl
  | cons d ds ih => simp [Data.mapSlots, Data.slots, ih, Datum.slots_mapSlots]

/-- The slots of a mapped routine are the mapped slots. -/
theorem Function.slots_mapSlots (i : Nat) (f : Function) :
    (f.mapSlots m i).slots i = (f.slots i).map m.slot := by
  simp [Function.mapSlots, Function.slots, Data.slots_mapSlots, Block.slots_mapSlots]

end

end Routine
