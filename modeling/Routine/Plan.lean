import Routine.Statement

/-!
# Where data are declared

A parse tree says in which line a datum is declared, but not in which block. A block's line is that of
its `BEGIN`, which comes after the declarations of the block; so a datum belongs to the nearest block
that begins after it.

Some data are not declared at all: those that every routine has, those that a loop introduces in its
own head, and the arguments of cursors, which stand in the declaration of the cursor.
-/

namespace Routine

/-! ## Lines -/

/-- A line added to ascending lines, unless it is there. -/
def insertLine (line : Int32) : List Int32 → List Int32
  | [] => [line]
  | l :: ls => if line < l then line :: l :: ls else if line = l then l :: ls else l :: insertLine line ls

/-- The lines in ascending order, each once. -/
def ascending (lines : List Int32) : List Int32 :=
  lines.foldr insertLine []

@[simp]
theorem mem_insertLine {a line : Int32} {ls : List Int32} :
    a ∈ insertLine line ls ↔ a = line ∨ a ∈ ls := by
  induction ls with
  | nil => simp [insertLine]
  | cons l ls ih =>
    unfold insertLine
    split
    · simp
    · split
      · next h => simp [h]
      · simp [ih, or_left_comm]

@[simp]
theorem mem_ascending {a : Int32} {lines : List Int32} : a ∈ ascending lines ↔ a ∈ lines := by
  induction lines with
  | nil => simp [ascending]
  | cons l ls ih => simpa [ascending] using or_congr_right ih

/-- The line of a datum that a loop introduces: that of its target, when it is the loop's own. -/
def Stmt.loopLine? : Stmt → Option Int32
  | .loop line _ (.range target ..) _ => if target.line = line then some line else none
  | .loop line _ (.query target _) _ => if target.line = line then some line else none
  | .loop line _ (.cursor target ..) _ => if target.line = line then some line else none
  | .loop line _ (.dynamic target ..) _ => if target.line = line then some line else none
  | _ => none

/-- The line of a statement that is a block. -/
def Stmt.blockLine? : Stmt → Option Int32
  | .block b => some b.line
  | _ => none

namespace Block

/-- The lines of data that loops in the block introduce, ascending. -/
def loopLines (b : Block) : List Int32 :=
  ascending (b.preorder.filterMap Stmt.loopLine?)

/-- The lines of the blocks inside the block, ascending. -/
def blockLines (b : Block) : List Int32 :=
  ascending (b.preorder.filterMap Stmt.blockLine?)

end Block

/-! ## The plan -/

namespace Function

/-- The numbers of the arguments of a cursor. -/
def cursorArguments (f : Function) : Datum → List Int32
  | .scalar v =>
    match v.cursorArguments.bind f.datum? with
    | some (.row r) => r.members.map Member.number
    | _ => []
  | _ => []

/-- The datum in a place is an argument of a cursor. -/
def isCursorArgument (f : Function) (index : Nat) : Bool :=
  f.data.any fun d => (f.cursorArguments d).any fun n => 0 ≤ n && n.toInt.toNat == index

/-- A variable or a record. -/
def isVariable : Datum → Bool
  | .scalar _ => true
  | .record _ => true
  | _ => false

/-- The datum in a place has a declaration of its own. -/
def isDeclarable (f : Function) (index : Nat) (d : Datum) : Bool :=
  isVariable d && 0 < d.line && !(d.name?.map isInternalName).getD false &&
    !f.action.loopLines.contains d.line && !f.isCursorArgument index

/-- The line of the nested block that a datum is declared in; none if it is declared in the outermost
block. -/
def owner? (f : Function) (d : Datum) : Option Int32 :=
  if f.action.line < d.line then f.action.blockLines.find? (d.line < ·) else none

/-- The places of the data with declarations, with the lines of the blocks they are declared in. -/
def declared (f : Function) : List (Nat × Option Int32) :=
  (f.data.zipIdx.filter fun (d, i) => f.isDeclarable i d).map fun (d, i) => (i, f.owner? d)

end Function

/-- Which data are declared in which block: the places in the table, in order. -/
structure Plan where
  /-- Declared in the outermost block. -/
  topLevel : List Nat
  /-- Declared in nested blocks, by the lines of the blocks in ascending order. -/
  nested : List (Int32 × List Nat)
deriving DecidableEq, Repr

namespace Plan

/-- The places that have the owner. -/
def ownedBy (owner : Option Int32) (declared : List (Nat × Option Int32)) : List Nat :=
  (declared.filter fun d => d.2 == owner).map Prod.fst

/-- The plan for a routine. -/
def ofFunction (f : Function) : Plan :=
  let declared := f.declared
  { topLevel := ownedBy none declared
    nested := (f.action.blockLines.map fun line => (line, ownedBy (some line) declared)).filter
      fun entry => !entry.2.isEmpty }

end Plan

/-- What is planned for nested blocks and not used yet. -/
abbrev Pending := List (Int32 × List Nat)

namespace Pending

/-- What is planned for the block in a line. -/
def find (line : Int32) (p : Pending) : List Nat :=
  ((p.find? fun entry => entry.1 = line).map Prod.snd).getD []

/-- What is planned for all other blocks. -/
def erase (line : Int32) (p : Pending) : Pending :=
  p.filter fun entry => entry.1 ≠ line

end Pending
end Routine
