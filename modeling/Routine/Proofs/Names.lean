import Routine.Plan
import Routine.Reference
import Routine.Slot

/-!
# What names and lines decide

How data are referred to and where they are declared is decided by their names, their numbers and
their lines, never by their leaves. So a table may be compared with another through its *bare* data
(`Datum.bare`), and two routines with the same bare data refer to them alike
(`Function.reference_eq_of_bare`) and, when their blocks and loops stand in the same lines, declare them
alike (`Plan.ofFunction_eq_of_bare`). A routine whose leaves were mapped is such a one.
-/

namespace Routine

/-- The datum without its leaves. -/
def Datum.bare : Datum → Datum
  | scalar v => scalar { v with type := none, initial := none, cursorQuery := none }
  | record r => record { r with type := none }
  | row r => row r
  | field f => field f

/-- The table without its leaves. -/
def Function.bareData (f : Function) : List Datum := f.data.map Datum.bare

theorem Datum.bare_mapSlots (m : Mapper) (p : Path) (d : Datum) : (d.mapSlots m p).bare = d.bare := by
  cases d <;> rfl

theorem Data.bare_mapSlots (m : Mapper) (p : Path) (i : Nat) (ds : List Datum) :
    (Data.mapSlots m p i ds).map Datum.bare = ds.map Datum.bare := by
  induction ds generalizing i with
  | nil => rfl
  | cons d ds ih => rw [Data.mapSlots, List.map_cons, List.map_cons, Datum.bare_mapSlots, ih]

theorem Function.bareData_mapSlots (m : Mapper) (i : Nat) (f : Function) :
    (f.mapSlots m i).bareData = f.bareData :=
  Data.bare_mapSlots m (path i) 0 f.data

@[simp]
theorem Datum.line_bare (d : Datum) : d.bare.line = d.line := by
  cases d <;> rfl

@[simp]
theorem Datum.name?_bare (d : Datum) : d.bare.name? = d.name? := by
  cases d <;> rfl

namespace Function

variable {f f' : Function}

@[simp]
theorem isVariable_bare (d : Datum) : isVariable d.bare = isVariable d := by
  cases d <;> rfl

@[simp]
theorem cursorArguments_bare (f : Function) (d : Datum) :
    f.cursorArguments d.bare = f.cursorArguments d := by
  cases d <;> rfl

/-! ## Data by number -/

theorem length_eq_of_bare (h : f'.bareData = f.bareData) : f'.data.length = f.data.length := by
  simpa [bareData] using congrArg List.length h

theorem bare_getElem?_of_bare (h : f'.bareData = f.bareData) (n : Nat) :
    f'.data[n]?.map Datum.bare = f.data[n]?.map Datum.bare := by
  rw [← List.getElem?_map, ← List.getElem?_map]
  exact congrArg (·[n]?) h

theorem bare_get_of_bare (h : f'.bareData = f.bareData) (i : Fin f.data.length) :
    (f'.data.get (i.cast (length_eq_of_bare h).symm)).bare = (f.data.get i).bare := by
  have hget := bare_getElem?_of_bare h i
  have hi : (i : Nat) < f'.data.length := by rw [length_eq_of_bare h]; exact i.isLt
  rw [List.getElem?_eq_getElem i.isLt, List.getElem?_eq_getElem hi] at hget
  simpa using hget

theorem bare_datum?_of_bare (h : f'.bareData = f.bareData) (number : Int32) :
    (f'.datum? number).map Datum.bare = (f.datum? number).map Datum.bare := by
  unfold datum?
  split
  · exact bare_getElem?_of_bare h _
  · rfl

theorem index?_of_bare (h : f'.bareData = f.bareData) (number : Int32) :
    f'.index? number = (f.index? number).map (Fin.cast (length_eq_of_bare h).symm) := by
  have hlength := length_eq_of_bare h
  unfold index?
  by_cases hn : 0 ≤ number ∧ number.toInt.toNat < f.data.length
  · rw [dif_pos hn, dif_pos ⟨hn.1, hlength ▸ hn.2⟩]
    rfl
  · rw [dif_neg hn, dif_neg (fun hn' => hn ⟨hn'.1, hlength ▸ hn'.2⟩)]
    rfl

/-! ## References -/

theorem referenceIn_bare (visiting : List (Fin f.data.length)) (d : Datum) :
    f.referenceIn visiting d.bare = f.referenceIn visiting d := by
  cases d <;> simp only [Datum.bare, referenceIn]

/-- Routines with the same bare data refer to a number and to a datum alike, in the middle of the same
references. -/
theorem reference_eq_of_bare_aux (h : f'.bareData = f.bareData) :
    (∀ visiting number, f'.referenceAt (visiting.map (Fin.cast (length_eq_of_bare h).symm)) number =
      f.referenceAt visiting number) ∧
    ∀ visiting d, f'.referenceIn (visiting.map (Fin.cast (length_eq_of_bare h).symm)) d =
      f.referenceIn visiting d := by
  have hindex := index?_of_bare h
  -- The recursion of the references: the data that they are in the middle of grow until none is free.
  apply referenceAt.mutual_induct f
  case case1 =>
    intro visiting number hnone
    rw [referenceAt, referenceAt, hindex, hnone]
    rfl
  case case2 =>
    intro visiting number i hi hmem
    have hmem' : i.cast (length_eq_of_bare h).symm ∈ visiting.map (Fin.cast (length_eq_of_bare h).symm) :=
      List.mem_map_of_mem hmem
    rw [referenceAt, referenceAt, hindex, hi]
    simp only [Option.map_some, if_pos hmem, if_pos hmem']
  case case3 =>
    intro visiting number i hi hmem ih
    have hmem' : i.cast (length_eq_of_bare h).symm ∉ visiting.map (Fin.cast (length_eq_of_bare h).symm) := by
      intro hcast
      obtain ⟨j, hj, hji⟩ := List.mem_map.1 hcast
      have heq : j = i := Fin.ext (Fin.mk.inj hji)
      exact hmem (heq ▸ hj)
    rw [referenceAt, referenceAt, hindex, hi]
    simp only [Option.map_some, if_neg hmem, if_neg hmem']
    rw [← referenceIn_bare, bare_get_of_bare h, referenceIn_bare, ← ih, List.map_cons]
  case case4 =>
    intro visiting v
    simp only [referenceIn]
  case case5 =>
    intro visiting r
    simp only [referenceIn]
  case case6 =>
    intro visiting r hunnamed ih
    simp only [referenceIn, if_pos hunnamed]
    refine congrArg _ (List.map_congr_left fun m _ => ?_)
    rw [hindex]
    cases hm : f.index? m.number with
    | none => rfl
    | some i => exact ih m
  case case7 =>
    intro visiting r hnamed
    simp only [referenceIn, if_neg hnamed]
  case case8 =>
    intro visiting a ih
    simp only [referenceIn, ih]

theorem reference_eq_of_bare (h : f'.bareData = f.bareData) (number : Int32) :
    f'.reference number = f.reference number :=
  (reference_eq_of_bare_aux h).1 [] number

theorem referenceFor_eq_of_bare (h : f'.bareData = f.bareData) (d : Datum) :
    f'.referenceFor d = f.referenceFor d :=
  (reference_eq_of_bare_aux h).2 [] d

/-! ## Declarations -/

theorem cursorArguments_eq_of_bare (h : f'.bareData = f.bareData) (d : Datum) :
    f'.cursorArguments d = f.cursorArguments d := by
  cases d with
  | scalar v =>
    simp only [cursorArguments]
    cases hn : v.cursorArguments with
    | none => rfl
    | some n =>
      have hd := bare_datum?_of_bare h n
      simp only [Option.bind_some]
      -- A row is its own bare datum, and nothing else is bare to a row.
      rcases h₁ : f'.datum? n with _ | ⟨_ | _ | _ | _⟩ <;>
        rcases h₂ : f.datum? n with _ | ⟨_ | _ | _ | _⟩ <;>
        simp_all [Datum.bare]
  | record r => rfl
  | row r => rfl
  | field a => rfl

theorem isCursorArgument_eq_of_bare (h : f'.bareData = f.bareData) (index : Nat) :
    f'.isCursorArgument index = f.isCursorArgument index := by
  have hbare : ∀ g : Function, g.isCursorArgument index =
      g.bareData.any fun d => (g.cursorArguments d).any fun n => 0 ≤ n && n.toInt.toNat == index := by
    intro g
    simp only [isCursorArgument, bareData, List.any_map, Function.comp_def, cursorArguments_bare]
  rw [hbare, hbare, h]
  simp only [cursorArguments_eq_of_bare h]

theorem declared_eq_of_bare (h : f'.bareData = f.bareData) (hline : f'.action.line = f.action.line)
    (hloops : f'.action.loopLines = f.action.loopLines)
    (hblocks : f'.action.blockLines = f.action.blockLines) : f'.declared = f.declared := by
  have hbare : ∀ g : Function, g.declared =
      (g.bareData.zipIdx.filter fun p => g.isDeclarable p.2 p.1).map fun p => (p.2, g.owner? p.1) := by
    intro g
    simp only [declared, bareData, List.zipIdx_map, List.filter_map, List.map_map, Function.comp_def,
      Prod.map, isDeclarable, owner?, isVariable_bare, Datum.line_bare, Datum.name?_bare, id]
  rw [hbare, hbare, h]
  simp only [isDeclarable, owner?, hline, hloops, hblocks, isCursorArgument_eq_of_bare h]

end Function

/-- Routines with the same bare data, whose blocks and loops stand in the same lines, have one plan. -/
theorem Plan.ofFunction_eq_of_bare {f f' : Function} (h : f'.bareData = f.bareData)
    (hline : f'.action.line = f.action.line) (hloops : f'.action.loopLines = f.action.loopLines)
    (hblocks : f'.action.blockLines = f.action.blockLines) :
    Plan.ofFunction f' = Plan.ofFunction f := by
  simp only [ofFunction, Function.declared_eq_of_bare h hline hloops hblocks, hblocks]

/-! ## Routines with mapped leaves -/

theorem Stmt.loopLine?_mapSlots (m : Mapper) (p : Path) (s : Stmt) :
    (s.mapSlots m p).loopLine? = s.loopLine? := by
  cases s with
  | loop line label head body => cases head <;> simp only [Stmt.mapSlots, LoopHead.mapSlots, loopLine?]
  | _ => simp only [Stmt.mapSlots, loopLine?]

theorem Block.line_mapSlots (m : Mapper) (p : Path) (b : Block) : (b.mapSlots m p).line = b.line := by
  cases b
  simp only [Block.mapSlots]

theorem Stmt.blockLine?_mapSlots (m : Mapper) (p : Path) (s : Stmt) :
    (s.mapSlots m p).blockLine? = s.blockLine? := by
  cases s with
  | block b => simp only [Stmt.mapSlots, blockLine?, Block.line_mapSlots]
  | _ => simp only [Stmt.mapSlots, blockLine?]

/-- What a function finds in a single statement stays the same when the leaves are mapped. -/
def Mapper.HiddenFrom {β : Type} (m : Mapper) (g : Stmt → Option β) : Prop :=
  ∀ p s, g (s.mapSlots m p) = g s

section

variable {β : Type} {g : Stmt → Option β} {m : Mapper}

-- What is hidden in each statement is hidden in all of them: by induction on the statements.
mutual

theorem Stmt.finds_mapSlots (hg : m.HiddenFrom g) (p : Path) : (s : Stmt) →
    (s.mapSlots m p).preorder.filterMap g = s.preorder.filterMap g
  | .block b => by
    have hhead := hg p (.block b)
    have hinside := Block.finds_mapSlots hg p b
    rw [Stmt.mapSlots] at hhead ⊢
    rw [Stmt.preorder, Stmt.preorder, List.filterMap_cons, List.filterMap_cons, hhead, hinside]
  | .simple line s => by
    have hhead := hg p (.simple line s)
    rw [Stmt.mapSlots] at hhead ⊢
    rw [Stmt.preorder, Stmt.preorder, List.filterMap_cons, List.filterMap_cons, hhead]
  | .conditional line condition body arms otherwise => by
    have hhead := hg p (.conditional line condition body arms otherwise)
    rw [Stmt.mapSlots] at hhead ⊢
    simp only [Stmt.preorder, List.filterMap_cons, List.filterMap_append, hhead,
      Stmts.finds_mapSlots hg p _ _ body, Arms.finds_mapSlots hg p _ _ _ arms,
      Stmts.finds_mapSlots hg p _ _ otherwise]
  | .choice line operand number arms hasElse otherwise => by
    have hhead := hg p (.choice line operand number arms hasElse otherwise)
    rw [Stmt.mapSlots] at hhead ⊢
    simp only [Stmt.preorder, List.filterMap_cons, List.filterMap_append, hhead,
      Arms.finds_mapSlots hg p _ _ _ arms, Stmts.finds_mapSlots hg p _ _ otherwise]
  | .loop line label head body => by
    have hhead := hg p (.loop line label head body)
    rw [Stmt.mapSlots] at hhead ⊢
    simp only [Stmt.preorder, List.filterMap_cons, hhead, Stmts.finds_mapSlots hg p _ _ body]

theorem Stmts.finds_mapSlots (hg : m.HiddenFrom g) (p : Path) (name : String) (i : Nat) :
    (ss : List Stmt) →
    (Stmts.preorder (Stmts.mapSlots m p name i ss)).filterMap g = (Stmts.preorder ss).filterMap g
  | [] => by rw [Stmts.mapSlots]
  | s :: ss => by
    simp only [Stmts.mapSlots, Stmts.preorder, List.filterMap_append,
      Stmt.finds_mapSlots hg _ s, Stmts.finds_mapSlots hg p name (i + 1) ss]

theorem Block.finds_mapSlots (hg : m.HiddenFrom g) (p : Path) : (b : Block) →
    (b.mapSlots m p).preorder.filterMap g = b.preorder.filterMap g
  | ⟨_, _, body, handlers⟩ => by
    simp only [Block.mapSlots, Block.preorder, List.filterMap_append,
      Stmts.finds_mapSlots hg p _ _ body, Handlers.finds?_mapSlots? hg p handlers]

theorem Handlers.finds?_mapSlots? (hg : m.HiddenFrom g) (p : Path) : (hs : Option (List Handler)) →
    (Handlers.preorder? (Handlers.mapSlots? m p hs)).filterMap g = (Handlers.preorder? hs).filterMap g
  | none => by rw [Handlers.mapSlots?]
  | some hs => by
    simp only [Handlers.mapSlots?, Handlers.preorder?, Handlers.finds_mapSlots hg _ 0 hs]

theorem Handlers.finds_mapSlots (hg : m.HiddenFrom g) (p : Path) (i : Nat) : (hs : List Handler) →
    (Handlers.preorder (Handlers.mapSlots m p i hs)).filterMap g = (Handlers.preorder hs).filterMap g
  | [] => by rw [Handlers.mapSlots]
  | ⟨_, _, action⟩ :: hs => by
    simp only [Handlers.mapSlots, Handlers.preorder, List.filterMap_append,
      Stmts.finds_mapSlots hg _ _ _ action, Handlers.finds_mapSlots hg p (i + 1) hs]

theorem Arms.finds_mapSlots (hg : m.HiddenFrom g) (p : Path) (name condition : String) (i : Nat) :
    (as : List Arm) →
    (Arms.preorder (Arms.mapSlots m p name condition i as)).filterMap g = (Arms.preorder as).filterMap g
  | [] => by rw [Arms.mapSlots]
  | ⟨_, _, body⟩ :: as => by
    simp only [Arms.mapSlots, Arms.preorder, List.filterMap_append,
      Stmts.finds_mapSlots hg _ _ _ body,
      Arms.finds_mapSlots hg p name condition (i + 1) as]

end
end

theorem Block.loopLines_mapSlots (m : Mapper) (p : Path) (b : Block) :
    (b.mapSlots m p).loopLines = b.loopLines := by
  rw [loopLines, Block.finds_mapSlots (Stmt.loopLine?_mapSlots m), loopLines]

theorem Block.blockLines_mapSlots (m : Mapper) (p : Path) (b : Block) :
    (b.mapSlots m p).blockLines = b.blockLines := by
  rw [blockLines, Block.finds_mapSlots (Stmt.blockLine?_mapSlots m), blockLines]

/-- The leaves of a routine do not matter to its plan. -/
theorem Plan.ofFunction_mapSlots (m : Mapper) (i : Nat) (f : Function) :
    Plan.ofFunction (f.mapSlots m i) = Plan.ofFunction f :=
  ofFunction_eq_of_bare (f.bareData_mapSlots m i) (Block.line_mapSlots m _ f.action)
    (Block.loopLines_mapSlots m _ f.action) (Block.blockLines_mapSlots m _ f.action)
end Routine
