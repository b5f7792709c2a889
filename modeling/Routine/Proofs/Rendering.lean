import Routine.Layout.Body
import Routine.Proofs.Names
import Routine.Proofs.Untouched

/-!
# Rendering with and without dehydration

There are two ways to the text of a hydrated tree: rendering it as it is, which takes the text of every
leaf on the way, and dehydrating it first. They give the same text, because rendering looks at a leaf
through its text and its mode only, and dehydration keeps both.

The two ways go through the tree independently of each other. A *layout* is what the rendering of a
routine depends on, so the proof compares the layout of a routine with that of the dehydrated routine
(`Layout.dehydrated`), operation by operation: leaves, references, declarations, simple statements, loop
heads, and then all statements by induction.

One operation looks further: a record whose type is captured as `record` is declared as one, whatever its
parsed type is. This is why the trees must have no such parsed type.
-/

namespace Routine

open Sql (Backend Tree)

/-! ## Data -/

section

variable (b : Backend)

/-- The datum with nothing but text in its leaves. -/
def Datum.dehydrate (d : Datum) : Datum := d.mapSlots (dehydrator b) []

theorem Datum.mapSlots_dehydrator (p : Path) (d : Datum) :
    d.mapSlots (dehydrator b) p = d.dehydrate b := by
  cases d <;> rfl

theorem Data.mapSlots_dehydrator (p : Path) (i : Nat) (ds : List Datum) :
    Data.mapSlots (dehydrator b) p i ds = ds.map (Datum.dehydrate b) := by
  induction ds generalizing i with
  | nil => rfl
  | cons d ds ih => rw [Data.mapSlots, Datum.mapSlots_dehydrator, ih, List.map_cons]

theorem Function.data_mapSlots_dehydrator (i : Nat) (f : Function) :
    (f.mapSlots (dehydrator b) i).data = f.data.map (Datum.dehydrate b) :=
  Data.mapSlots_dehydrator b (path i) 0 f.data

theorem Function.datum?_mapSlots_dehydrator (i : Nat) (f : Function) (number : Int32) :
    (f.mapSlots (dehydrator b) i).datum? number = (f.datum? number).map (Datum.dehydrate b) := by
  unfold datum?
  rw [data_mapSlots_dehydrator, List.getElem?_map]
  split <;> rfl

end

/-- The text is the type of a record that has none of its own. -/
def namesRecord (text : String) : Bool :=
  Text.sameName (Text.trim text) "record"

/-- No parsed type of a record is captured or written as `record`. -/
def Datum.HasPlainType (b : Backend) : Datum → Prop
  | .record r => ∀ t ∈ r.type, t.isHydrated = true →
      namesRecord t.captured = false ∧ namesRecord (t.text b) = false
  | _ => True

/-! ## Layouts -/

namespace Layout

variable (y : Layout) (i : Nat)

/-- The layout of the routine, dehydrated. -/
def dehydrated : Layout :=
  { y with function := y.function.mapSlots (dehydrator y.backend) i }

@[simp]
theorem keyword_dehydrated (words : String) : (y.dehydrated i).keyword words = y.keyword words := rfl

@[simp]
theorem leaf_dehydrated (l : Leaf) : (y.dehydrated i).leaf (l.dehydrate y.backend) = y.leaf l := rfl

@[simp]
theorem type_dehydrated (t : TypeRef) : (y.dehydrated i).type (t.dehydrate y.backend) = y.type t := rfl

@[simp]
theorem reference_dehydrated (number : Int32) :
    (y.dehydrated i).function.reference number = y.function.reference number :=
  Function.reference_eq_of_bare (y.function.bareData_mapSlots _ i) number

@[simp]
theorem referenceFor_dehydrated (d : Datum) :
    (y.dehydrated i).function.referenceFor d = y.function.referenceFor d :=
  Function.referenceFor_eq_of_bare (y.function.bareData_mapSlots _ i) d

@[simp]
theorem datum?_dehydrated (number : Int32) :
    (y.dehydrated i).function.datum? number = (y.function.datum? number).map (Datum.dehydrate y.backend) :=
  y.function.datum?_mapSlots_dehydrator y.backend i number

/-! ## Leaves under members

A mapper acts on a leaf under a member; rendering takes the text of what is there. -/

@[simp]
theorem leaf_under (p : Path) (name : String) (l : Leaf) :
    (y.dehydrated i).leaf ((dehydrator y.backend).under p name l) = y.leaf l := rfl

@[simp]
theorem map_leaf_under? (p : Path) (name : String) (l : Option Leaf) :
    ((dehydrator y.backend).under? p name l).map (y.dehydrated i).leaf = l.map y.leaf := by
  cases l <;> rfl

@[simp]
theorem map_leaf_items (p : Path) (name : String) (index : Nat) (ls : List Leaf) :
    ((dehydrator y.backend).items p name index ls).map (y.dehydrated i).leaf = ls.map y.leaf := by
  induction ls generalizing index with
  | nil => rfl
  | cons l ls ih => rw [Mapper.items, List.map_cons, List.map_cons, ih]; rfl

@[simp]
theorem isEmpty_items (m : Mapper) (p : Path) (name : String) (index : Nat) (ls : List Leaf) :
    (m.items p name index ls).isEmpty = ls.isEmpty := by
  cases ls <;> rfl

@[simp]
theorem parameters_items (p : Path) (name : String) (index : Nat) (ls : List Leaf) :
    (y.dehydrated i).parameters ((dehydrator y.backend).items p name index ls) = y.parameters ls := by
  rw [parameters, parameters, isEmpty_items, map_leaf_items, keyword_dehydrated]

@[simp]
theorem isEmpty_options (m : Mapper) (p : Path) (index : Nat) (os : List RaiseOption) :
    (m.options p index os).isEmpty = os.isEmpty := by
  cases os <;> rfl

@[simp]
theorem map_options (p : Path) (index : Nat) (os : List RaiseOption) :
    (((dehydrator y.backend).options p index os).map fun o =>
        y.keyword o.field.keyword ++ " = " ++ (y.dehydrated i).leaf o.value) =
      os.map fun o => y.keyword o.field.keyword ++ " = " ++ y.leaf o.value := by
  induction os generalizing index with
  | nil => rfl
  | cons o os ih => rw [Mapper.options, List.map_cons, List.map_cons, ih]; rfl

@[simp]
theorem cursorArguments_under (p : Path) (name : String) (l : Leaf) :
    (y.dehydrated i).cursorArguments ((dehydrator y.backend).under p name l) = y.cursorArguments l := rfl

@[simp]
theorem into_dehydrated (target : Datum) (strict : Bool) :
    (y.dehydrated i).into target strict = y.into target strict := by
  rw [into, into, referenceFor_dehydrated, keyword_dehydrated, keyword_dehydrated]

/-! ## Simple statements and loop heads -/

theorem assign_dehydrated (p : Path) (number : Int32) (value : Leaf) :
    (y.dehydrated i).assign number ((dehydrator y.backend).under p "expr" value) =
      y.assign number value := by
  simp only [assign, leaf_under, reference_dehydrated]
  rfl

theorem isReturned_dehydrated (d : Datum) :
    (y.dehydrated i).isReturned (d.dehydrate y.backend) = y.isReturned d := by
  cases d <;> rfl

theorem referenceFor_dehydrate (b : Backend) (f : Function) (d : Datum) :
    f.referenceFor (d.dehydrate b) = f.referenceFor d := by
  rw [Function.referenceFor, ← Function.referenceIn_bare, Datum.dehydrate, Datum.bare_mapSlots,
    Function.referenceIn_bare, Function.referenceFor]

theorem ret_dehydrated (p : Path) (value : Option Leaf) (number : Option Int32) :
    (y.dehydrated i).ret ((dehydrator y.backend).under? p "expr" value) number = y.ret value number := by
  cases value with
  | some l => rfl
  | none =>
    have hdatum : number.bind (y.dehydrated i).function.datum? =
        (number.bind y.function.datum?).map (Datum.dehydrate y.backend) := by
      cases number with
      | none => rfl
      | some n => exact y.datum?_dehydrated i n
    simp only [ret, Mapper.under?, Option.map_none, hdatum]
    cases number.bind y.function.datum? with
    | none => rfl
    | some d =>
      simp only [Option.map_some, isReturned_dehydrated, referenceFor_dehydrated, referenceFor_dehydrate]
      rfl

theorem raise_dehydrated (p : Path) (severity : Severity) (condition message : Option String)
    (parameters : List Leaf) (options : List RaiseOption) :
    (y.dehydrated i).raise severity condition message
        ((dehydrator y.backend).items p "params" 0 parameters) ((dehydrator y.backend).options p 0 options) =
      y.raise severity condition message parameters options := by
  simp only [raise, raiseMessage, isEmpty_items, isEmpty_options, map_leaf_items, map_options,
    keyword_dehydrated]
  rfl

theorem simple_dehydrated (p : Path) (s : Simple) :
    (y.dehydrated i).simple (s.mapSlots (dehydrator y.backend) p) = y.simple s := by
  cases s with
  | assign number value => exact y.assign_dehydrated i p number value
  | ret value number => exact y.ret_dehydrated i p value number
  | exit isExit label condition => cases condition <;> rfl
  | returnNext value number =>
    cases value <;> cases number <;> simp [Simple.mapSlots, simple, returnNext, Mapper.under?]
  | returnQuery query dynamic parameters =>
    cases query <;> cases dynamic <;> simp [Simple.mapSlots, simple, returnQuery, Mapper.under?]
  | raise severity condition message parameters options =>
    simp only [Simple.mapSlots, simple]
    exact y.raise_dehydrated i p severity condition message parameters options
  | assert condition message =>
    cases message <;> simp [Simple.mapSlots, simple, assert, Mapper.under?]
  | execute sql into => simp [Simple.mapSlots, simple, execute]
  | executeDynamic query into parameters => simp [Simple.mapSlots, simple, executeDynamic]
  | getDiagnostics stacked targets => simp [Simple.mapSlots, simple, getDiagnostics]
  | openCursor cursor options arguments query dynamic parameters =>
    cases arguments <;> cases query <;> cases dynamic <;>
      simp [Simple.mapSlots, simple, openCursor, Mapper.under?, scroll]
  | fetch target cursor direction count amount isMove severalRows =>
    cases amount <;> simp [Simple.mapSlots, simple, fetch, Mapper.under?, Layout.direction]
  | closeCursor cursor => simp [Simple.mapSlots, simple]
  | perform query => simp [Simple.mapSlots, simple]
  | call sql isCall target => simp [Simple.mapSlots, simple]
  | commit chain => rfl
  | rollback chain => rfl
  | set sql => simp [Simple.mapSlots, simple]

theorem head_dehydrated (p : Path) (head : LoopHead) :
    (y.dehydrated i).head (head.mapSlots (dehydrator y.backend) p) = y.head head := by
  cases head with
  | range target lower upper step reverse =>
    cases step <;> simp [LoopHead.mapSlots, Layout.head, Mapper.under?]
  | cursor target number arguments =>
    cases arguments <;> simp [LoopHead.mapSlots, Layout.head, Mapper.under?]
  | _ => simp [LoopHead.mapSlots, Layout.head]

/-! ## Declarations -/

theorem argument_dehydrated (m : Member) : (y.dehydrated i).argument m = y.argument m := by
  rw [argument, argument, datum?_dehydrated]
  cases y.function.datum? m.number with
  | none => rfl
  | some d =>
    cases d with
    | scalar v =>
      obtain ⟨name, line, type, isConstant, notNull, initial, query, arguments, options⟩ := v
      cases type <;> rfl
    | record r => rfl
    | row r => rfl
    | field a => rfl

theorem argumentList_dehydrated (v : Variable) (type : Option TypeRef) (initial query : Option Leaf) :
    (y.dehydrated i).argumentList { v with type := type, initial := initial, cursorQuery := query } =
      y.argumentList v := by
  simp only [argumentList]
  cases v.cursorArguments with
  | none => rfl
  | some n =>
    simp only [Option.bind_some, datum?_dehydrated]
    cases y.function.datum? n with
    | none => rfl
    | some d =>
      cases d with
      | row r =>
        have hargument : (y.dehydrated i).argument = y.argument := funext (y.argument_dehydrated i)
        show " (" ++ commas (r.members.map (y.dehydrated i).argument) ++ ")" = _
        rw [hargument]
      | scalar v => rfl
      | record r => rfl
      | field a => rfl

theorem cursorDeclaration_dehydrated (v : Variable) (type : Option TypeRef) (initial query : Option Leaf)
    (l : Leaf) :
    (y.dehydrated i).cursorDeclaration { v with type := type, initial := initial, cursorQuery := query }
        (l.dehydrate y.backend) = y.cursorDeclaration v l := by
  rw [cursorDeclaration, cursorDeclaration, argumentList_dehydrated, leaf_dehydrated]
  rfl

theorem recordType_some (t : TypeRef) :
    y.recordType (some t) = if namesRecord t.captured then y.keyword "record" else y.type t := rfl

theorem captured_dehydrate (b : Backend) (t : TypeRef) : (t.dehydrate b).captured = t.text b := rfl

/-- A record is declared with the same type, unless its parsed type passes for `record`. -/
theorem recordType_dehydrated {type : Option TypeRef}
    (h : ∀ t ∈ type, t.isHydrated = true →
      namesRecord t.captured = false ∧ namesRecord (t.text y.backend) = false) :
    (y.dehydrated i).recordType (type.map (TypeRef.dehydrate y.backend)) = y.recordType type := by
  cases type with
  | none => rfl
  | some t =>
    cases ht : t.isHydrated with
    | false =>
      cases t with
      | raw name =>
        rw [Option.map_some, TypeRef.dehydrate_raw, recordType_some, recordType_some, keyword_dehydrated]
        rfl
      | hydrated captured tree suffix => cases ht
    | true =>
      obtain ⟨hcaptured, htext⟩ := h t rfl ht
      rw [Option.map_some, recordType_some, recordType_some, captured_dehydrate, htext, hcaptured,
        if_neg Bool.false_ne_true, if_neg Bool.false_ne_true, type_dehydrated]

theorem declaration_dehydrated {d : Datum} (h : d.HasPlainType y.backend) :
    (y.dehydrated i).declaration (d.dehydrate y.backend) = y.declaration d := by
  cases d with
  | scalar v =>
    obtain ⟨name, line, type, isConstant, notNull, initial, query, arguments, options⟩ := v
    cases query with
    | some l => exact congrArg some (y.cursorDeclaration_dehydrated i _ _ _ _ l)
    | none => cases type <;> cases initial <;> rfl
  | record r =>
    have htype : (y.dehydrated i).recordType (r.type.map (TypeRef.dehydrate y.backend)) =
        y.recordType r.type := y.recordType_dehydrated i h
    have hleft : (y.dehydrated i).declaration ((Datum.record r).dehydrate y.backend) =
        some (r.name ++ " " ++ (y.dehydrated i).recordType (r.type.map (TypeRef.dehydrate y.backend)) ++ ";") :=
      rfl
    rw [hleft, htype, declaration]
  | row r => rfl
  | field a => rfl

variable {y}

theorem declarations_dehydrated (h : ∀ d ∈ y.function.data, d.HasPlainType y.backend) (depth : Nat)
    (places : List Nat) :
    (y.dehydrated i).declarations depth places = y.declarations depth places := by
  have hdata : (y.dehydrated i).function.data = y.function.data.map (Datum.dehydrate y.backend) :=
    y.function.data_mapSlots_dehydrator y.backend i
  have hplace : ∀ place : Nat, (y.dehydrated i).function.data[place]?.bind (y.dehydrated i).declaration =
      y.function.data[place]?.bind y.declaration := by
    intro place
    rw [hdata, List.getElem?_map]
    cases hd : y.function.data[place]? with
    | none => rw [Option.map_none, Option.bind_none, Option.bind_none]
    | some d =>
      rw [Option.map_some, Option.bind_some, Option.bind_some]
      exact y.declaration_dehydrated i (h d (List.mem_of_getElem? hd))
  simp only [declarations, hplace, keyword_dehydrated]

end Layout

/-! ## Statements -/

-- The induction is on the statements. What is still planned is the same on both sides at every step,
-- since each side leaves over what the other does.
section

variable {y : Layout} {i : Nat}

/-- The rest of a layout: declarations come out the same. -/
def Layout.SameDeclarations (y : Layout) (i : Nat) : Prop :=
  ∀ depth places, (y.dehydrated i).declarations depth places = y.declarations depth places

mutual

theorem Stmt.lines_dehydrated (h : y.SameDeclarations i) (depth : Nat) (pending : Pending) (p : Path) :
    (s : Stmt) →
    (s.mapSlots (dehydrator y.backend) p).lines (y.dehydrated i) depth pending = s.lines y depth pending
  | .block b => by
    rw [Stmt.mapSlots, Stmt.lines, Stmt.lines, Block.line_mapSlots, Block.lines_dehydrated h _ _ _ _ p b]
  | .simple _ s => by
    rw [Stmt.mapSlots, Stmt.lines, Stmt.lines, Layout.simple_dehydrated]
  | .conditional _ condition body arms otherwise => by
    have hempty : (Stmts.mapSlots (dehydrator y.backend) p "else_body" 0 otherwise).isEmpty =
        otherwise.isEmpty := by
      cases otherwise <;> simp [Stmts.mapSlots]
    simp only [Stmt.mapSlots, Stmt.lines, Stmts.lines_dehydrated h _ _ p _ _ body,
      Arms.conditionalLines_dehydrated h _ _ p _ _ _ arms, Stmts.lines_dehydrated h _ _ p _ _ otherwise,
      Layout.keyword_dehydrated, Layout.leaf_under, hempty]
  | .choice _ operand _ arms hasElse otherwise => by
    have hsome : ((dehydrator y.backend).under? p "t_expr" operand).isSome = operand.isSome := by
      cases operand <;> rfl
    have hhead : (y.dehydrated i).caseHead ((dehydrator y.backend).under? p "t_expr" operand) =
        y.caseHead operand := by
      cases operand <;> rfl
    simp only [Stmt.mapSlots, Stmt.lines, hsome, Arms.choiceLines_dehydrated h _ _ _ p _ _ _ arms,
      Stmts.lines_dehydrated h _ _ p _ _ otherwise, Layout.keyword_dehydrated, hhead]
  | .loop _ label head body => by
    simp only [Stmt.mapSlots, Stmt.lines, Stmts.lines_dehydrated h _ _ p _ _ body,
      Layout.head_dehydrated]
    rfl

theorem Stmts.lines_dehydrated (h : y.SameDeclarations i) (depth : Nat) (pending : Pending) (p : Path)
    (name : String) (index : Nat) : (ss : List Stmt) →
    Stmts.lines (y.dehydrated i) depth pending (Stmts.mapSlots (dehydrator y.backend) p name index ss) =
      Stmts.lines y depth pending ss
  | [] => by rw [Stmts.mapSlots, Stmts.lines, Stmts.lines]
  | s :: ss => by
    simp only [Stmts.mapSlots, Stmts.lines, Stmt.lines_dehydrated h depth _ _ s,
      Stmts.lines_dehydrated h depth _ p name (index + 1) ss]

theorem Block.lines_dehydrated (h : y.SameDeclarations i) (depth : Nat) (places : List Nat)
    (outermost : Bool) (pending : Pending) (p : Path) : (b : Block) →
    (b.mapSlots (dehydrator y.backend) p).lines (y.dehydrated i) depth places outermost pending =
      b.lines y depth places outermost pending
  | ⟨_, label, body, handlers⟩ => by
    simp only [Block.mapSlots, Block.lines, Stmts.lines_dehydrated h _ _ p _ _ body,
      Handlers.lines?_dehydrated h _ _ p handlers, h depth places]
    rfl

theorem Handlers.lines?_dehydrated (h : y.SameDeclarations i) (depth : Nat) (pending : Pending)
    (p : Path) : (hs : Option (List Handler)) →
    Handlers.lines? (y.dehydrated i) depth pending (Handlers.mapSlots? (dehydrator y.backend) p hs) =
      Handlers.lines? y depth pending hs
  | none => by rw [Handlers.mapSlots?, Handlers.lines?, Handlers.lines?]
  | some hs => by
    simp only [Handlers.mapSlots?, Handlers.lines?, Handlers.lines_dehydrated h _ _ _ _ hs,
      Layout.keyword_dehydrated]

theorem Handlers.lines_dehydrated (h : y.SameDeclarations i) (depth : Nat) (pending : Pending)
    (p : Path) (index : Nat) : (hs : List Handler) →
    Handlers.lines (y.dehydrated i) depth pending (Handlers.mapSlots (dehydrator y.backend) p index hs) =
      Handlers.lines y depth pending hs
  | [] => by rw [Handlers.mapSlots, Handlers.lines, Handlers.lines]
  | ⟨_, conditions, action⟩ :: hs => by
    simp only [Handlers.mapSlots, Handlers.lines, Stmts.lines_dehydrated h _ _ _ _ _ action,
      Handlers.lines_dehydrated h _ _ p (index + 1) hs]
    rfl

theorem Arms.conditionalLines_dehydrated (h : y.SameDeclarations i) (depth : Nat) (pending : Pending)
    (p : Path) (name condition : String) (index : Nat) : (as : List Arm) →
    Arms.conditionalLines (y.dehydrated i) depth pending
        (Arms.mapSlots (dehydrator y.backend) p name condition index as) =
      Arms.conditionalLines y depth pending as
  | [] => by rw [Arms.mapSlots, Arms.conditionalLines, Arms.conditionalLines]
  | ⟨_, l, body⟩ :: as => by
    simp only [Arms.mapSlots, Arms.conditionalLines, Stmts.lines_dehydrated h _ _ _ _ _ body,
      Arms.conditionalLines_dehydrated h _ _ p name condition (index + 1) as, Layout.leaf_under,
      Layout.keyword_dehydrated]

theorem Arms.choiceLines_dehydrated (h : y.SameDeclarations i) (depth : Nat) (hasOperand : Bool)
    (pending : Pending) (p : Path) (name condition : String) (index : Nat) : (as : List Arm) →
    Arms.choiceLines (y.dehydrated i) depth hasOperand pending
        (Arms.mapSlots (dehydrator y.backend) p name condition index as) =
      Arms.choiceLines y depth hasOperand pending as
  | [] => by rw [Arms.mapSlots, Arms.choiceLines, Arms.choiceLines]
  | ⟨_, l, body⟩ :: as => by
    simp only [Arms.mapSlots, Arms.choiceLines, Stmts.lines_dehydrated h _ _ _ _ _ body,
      Arms.choiceLines_dehydrated h _ _ _ p name condition (index + 1) as, Layout.armCondition,
      Layout.leaf_under, Layout.keyword_dehydrated]

end
end

/-! ## Routines and trees -/

/-- The dehydrated routine is laid out like the routine, for every backend. -/
theorem Layout.lines_dehydrated {y : Layout} (i : Nat)
    (h : ∀ d ∈ y.function.data, d.HasPlainType y.backend) : (y.dehydrated i).lines = y.lines := by
  have hplan : Plan.ofFunction (y.dehydrated i).function = Plan.ofFunction y.function :=
    Plan.ofFunction_mapSlots (dehydrator y.backend) i y.function
  simp only [lines, laid, hplan]
  exact congrArg Prod.fst
    (Block.lines_dehydrated (Layout.declarations_dehydrated i h) 0 _ true _ _ y.function.action)

namespace ParseTree

/-- No parsed type of a record in a table is captured or written as `record`. -/
def HasPlainTypes (b : Backend) (t : ParseTree) : Prop :=
  ∀ f ∈ t, ∀ d ∈ f.data, d.HasPlainType b

theorem bodies_dehydrateFrom {b : Backend} (format : Format) (kind : Option ReturnKind) {t : ParseTree}
    (h : t.HasPlainTypes b) (i : Nat) :
    bodies format kind (mapSlotsFrom (dehydrator b) i t) b = bodies format kind t b := by
  induction t generalizing i with
  | nil => rfl
  | cons f fs ih =>
    obtain ⟨hf, hfs⟩ := List.forall_mem_cons.1 h
    have hlines : ((f.mapSlots (dehydrator b) i).layout kind format.capitals b).lines =
        (f.layout kind format.capitals b).lines :=
      Layout.lines_dehydrated (y := f.layout kind format.capitals b) i hf
    have hbody : (f.mapSlots (dehydrator b) i).body format kind b = f.body format kind b := by
      rw [Function.body, hlines, Function.body]
    rw [mapSlotsFrom, bodies, List.map_cons, hbody, bodies, List.map_cons]
    exact congrArg _ (ih hfs (i + 1))

end ParseTree

/-! ## Types that hydration makes

Hydration parses qualified names only, and `record` is none. -/

theorem Identifier.length_splitDots {cs : List Char} (h : '.' ∉ cs) (inQuotes : Bool) :
    (splitDots inQuotes cs).length = 1 := by
  induction cs generalizing inQuotes with
  | nil => rfl
  | cons c cs ih =>
    have hc : '.' ≠ c := fun heq => h (heq ▸ List.mem_cons_self)
    have hcs : '.' ∉ cs := fun hmem => h (List.mem_cons_of_mem c hmem)
    have hlength := ih hcs (if c = '"' then !inQuotes else inQuotes)
    rw [splitDots, if_neg fun hdot => hc hdot.1.symm]
    obtain ⟨piece, hpiece⟩ := List.length_eq_one_iff.1 hlength
    rw [hpiece]
    rfl

section

variable {name : String} (h : name.toList.map Text.lower = "record".toList.map Text.lower)
include h

theorem Identifier.isQualified_of_letters : isQualified name = false := by
  have hdot : '.' ∉ name.toList := by
    intro hmem
    have hrecord : Text.lower '.' ∈ "record".toList.map Text.lower := h ▸ List.mem_map_of_mem hmem
    revert hrecord
    decide
  rw [isQualified, split, List.length_map, length_splitDots hdot]
  rfl

theorem TypeName.splitReference_of_letters : splitReference name = none := by
  have hrow : Text.endsWithName name "%rowtype" = false := by
    rw [Text.endsWithName, Text.endsWithLetters, h]
    decide
  have htype : Text.endsWithName name "%type" = false := by
    rw [Text.endsWithName, Text.endsWithLetters, h]
    decide
  simp [splitReference, referenceSuffixes, hrow, htype]

theorem TypeName.dropCatalog_of_letters : dropCatalog name = name := by
  have hcatalog : Text.startsWithName name catalogQualifier = false := by
    rw [Text.startsWithName, Text.startsWithLetters, h]
    decide
  rw [dropCatalog, hcatalog]
  rfl

end

/-- No name that is worth parsing passes for `record`. -/
theorem TypeName.namesRecord_of_parsable? {name base : String} {suffix : Option String}
    (h : parsable? name = some (base, suffix)) : namesRecord name = false := by
  by_contra hrecord
  have hletters : (Text.trim name).toList.map Text.lower = "record".toList.map Text.lower := by
    simpa [namesRecord, Text.sameName, Text.sameLetters] using hrecord
  have hnone : parsable? name = none := by
    simp only [parsable?, splitReference_of_letters hletters, dropCatalog_of_letters hletters,
      Identifier.isQualified_of_letters hletters]
    rfl
  rw [hnone] at h
  cases h

/-- A fresh type does not pass for `record` once it is parsed. -/
theorem TypeRef.Fresh.plain {b : Backend} {name : String} {t : TypeRef} (h : t.Fresh b name)
    (ht : t.isHydrated = true) : namesRecord t.captured = false ∧ namesRecord (t.text b) = false := by
  rw [h.text_eq]
  cases h with
  | raw => cases ht
  | hydrated hbase htree =>
    have hplain : namesRecord name = false := TypeName.namesRecord_of_parsable? hbase
    exact ⟨hplain, hplain⟩

/-- The type of a record in a table is a leaf of the tree. -/
theorem Data.type_mem_slots {p : Path} {i : Nat} {ds : List Datum} {r : RecordVariable} {t : TypeRef}
    (hr : .record r ∈ ds) (ht : t ∈ r.type) : ∃ q, (q, .type t) ∈ Data.slots p i ds := by
  induction ds generalizing i with
  | nil => cases hr
  | cons d ds ih =>
    rw [Data.slots]
    rcases List.mem_cons.1 hr with rfl | hr
    · rw [Option.mem_def] at ht
      refine ⟨(p.item "datums" i).member "datatype", List.mem_append_left _ ?_⟩
      rw [Datum.slots, ht, typeSlot?]
      exact List.mem_singleton.2 rfl
    · obtain ⟨q, hq⟩ := ih (i := i + 1) hr
      exact ⟨q, List.mem_append_right _ hq⟩

theorem ParseTree.type_mem_slotsFrom {i : Nat} {t : ParseTree} {f : Function} {r : RecordVariable}
    {ty : TypeRef} (hf : f ∈ t) (hr : .record r ∈ f.data) (ht : ty ∈ r.type) :
    ∃ q, (q, .type ty) ∈ slotsFrom i t := by
  induction t generalizing i with
  | nil => cases hf
  | cons g gs ih =>
    rw [slotsFrom]
    rcases List.mem_cons.1 hf with rfl | hf
    · obtain ⟨q, hq⟩ := Data.type_mem_slots (p := Function.path i) (i := 0) hr ht
      exact ⟨q, List.mem_append_left _ (List.mem_append_left _ hq)⟩
    · obtain ⟨q, hq⟩ := ih (i := i + 1) hf
      exact ⟨q, List.mem_append_right _ hq⟩

/-- Hydration of a raw tree parses no type that passes for `record`. -/
theorem ParseTree.hasPlainTypes_of_hydrate {b : Backend} {s : ParseTree} {o : HydrateOptions}
    {r : Outcome ParseTree} (hraw : s.IsRaw) (h : s.hydrate b o = .ok r) : r.value.HasPlainTypes b := by
  intro f hf d hd
  cases d with
  | record v =>
    intro t ht hhydrated
    obtain ⟨q, hq⟩ := type_mem_slotsFrom (i := 0) hf hd ht
    have hslots : slotsFrom 0 r.value = s.slots.map (hydrator b o).slot := by
      rw [hydrate_value h]
      exact slots_mapSlots (hydrator b o) s
    rw [hslots] at hq
    -- The type is what hydration made of a raw one.
    obtain ⟨⟨q', x⟩, hx, hxq⟩ := List.mem_map.1 hq
    have hxraw : x.IsRaw := hraw _ hx
    cases x with
    | leaf l => cases hxq
    | type t' =>
      cases t' with
      | hydrated captured tree suffix => cases hxraw
      | raw name =>
        have hfresh := hydrateType_raw_fresh (b := b) (o := o) q' name
        have heq : (hydrateType b o q' (.raw name)).value = t :=
          Slot.type.inj (Prod.mk.inj hxq).2
        rw [heq] at hfresh
        exact hfresh.plain hhydrated
  | scalar v => trivial
  | row v => trivial
  | field v => trivial

/-- **Rendering commutes with dehydration.** Whatever the backend, a tree and the dehydrated tree have the same
bodies, in every format and for every kind of result, whether its leaves are raw, hydrated or edited. In particular
a hydrated tree has the bodies of the raw tree it comes from. -/
theorem rendering_commutes_with_dehydration (b : Backend) (format : Format) (kind : Option ReturnKind) :
    (∀ t : ParseTree, t.HasPlainTypes b →
      t.bodies format kind b = (t.dehydrate b).bodies format kind b) ∧
    ∀ (s : ParseTree) (o : HydrateOptions) (r : Outcome ParseTree), s.IsRaw →
      s.hydrate b o = .ok r → r.value.bodies format kind b = s.bodies format kind b := by
  have hdirect : ∀ t : ParseTree, t.HasPlainTypes b →
      t.bodies format kind b = (t.dehydrate b).bodies format kind b := by
    intro t ht
    exact (ParseTree.bodies_dehydrateFrom format kind ht 0).symm
  refine ⟨hdirect, ?_⟩
  intro s o r hraw h
  rw [hdirect r.value (ParseTree.hasPlainTypes_of_hydrate hraw h), ParseTree.dehydrate_of_hydrate hraw h]

/-! ### A record whose parsed type was edited -/

/-- A record with a parsed type that is no longer the captured one, and a hydrated result. -/
def invoiceEdited : ParseTree :=
  [⟨[.record ⟨"item", none, 2, some (.hydrated "app.line" (.custom [.plain "app", .plain "item"] []) none)⟩],
    ⟨3, none,
      [.simple 4 (.ret (some (.hydrated "item" .expression (.expression (.identifier (.plain "line"))))) none)],
      none⟩⟩]

theorem rendering_commutes_with_dehydration_invoice :
    invoiceEdited.HasPlainTypes .postgres ∧
      invoiceEdited.bodies {} none = (invoiceEdited.dehydrate .postgres).bodies {} none ∧
      ∃ r, orderTotal.hydrate .postgres {} = .ok r ∧ r.value.bodies {} none = orderTotal.bodies {} none := by
  have hplain : invoiceEdited.HasPlainTypes .postgres := by
    intro f hf d hd
    obtain rfl := List.mem_singleton.1 hf
    obtain rfl := List.mem_singleton.1 hd
    intro t ht _
    obtain rfl := Option.some.inj ht
    exact ⟨by decide +kernel, by decide +kernel⟩
  obtain ⟨hdirect, hhydrated⟩ := rendering_commutes_with_dehydration .postgres {} none
  exact ⟨hplain, hdirect invoiceEdited hplain, _, rfl, hhydrated orderTotal {} _ (by decide) rfl⟩

end Routine
