import Routine.Statement

/-!
# How deep a tree goes

What bounds a parse tree is how many of its statements stand inside one another (`ParseTree.depth`). A
shape of that many levels describes the whole tree.
-/

namespace Routine

mutual

/-- How many statements stand inside one another, this one included. -/
def Stmt.depth : Stmt → Nat
  | .block b => b.depth + 1
  | .simple _ _ => 1
  | .conditional _ _ body arms otherwise =>
    max (Stmts.depth body) (max (Arms.depth arms) (Stmts.depth otherwise)) + 1
  | .choice _ _ _ arms _ otherwise => max (Arms.depth arms) (Stmts.depth otherwise) + 1
  | .loop _ _ _ body => Stmts.depth body + 1

/-- The greatest depth among statements. -/
def Stmts.depth : List Stmt → Nat
  | [] => 0
  | s :: ss => max s.depth (Stmts.depth ss)

/-- The greatest depth among the statements of a block. -/
def Block.depth : Block → Nat
  | ⟨_, _, body, handlers⟩ => max (Stmts.depth body) (Handlers.depth? handlers)

/-- The greatest depth among the statements of handlers, if there are any. -/
def Handlers.depth? : Option (List Handler) → Nat
  | none => 0
  | some hs => Handlers.depth hs

/-- The greatest depth among the statements of handlers. -/
def Handlers.depth : List Handler → Nat
  | [] => 0
  | ⟨_, _, action⟩ :: hs => max (Stmts.depth action) (Handlers.depth hs)

/-- The greatest depth among the statements of arms. -/
def Arms.depth : List Arm → Nat
  | [] => 0
  | ⟨_, _, body⟩ :: as => max (Stmts.depth body) (Arms.depth as)

end

namespace ParseTree

/-- The greatest depth among the statements of all routines. -/
def depth : ParseTree → Nat
  | [] => 0
  | f :: fs => max f.action.depth (depth fs)

end ParseTree
end Routine
