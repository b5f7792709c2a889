import Routine.Layout.Body

/-!
# Sections of declarations

The lines of a routine are laid out in one pass that carries the plan for nested blocks along and uses it
up. Here the pass is cut in two. First come the *pieces* of the layout: all lines, with an open section
before each `BEGIN` (`Stmt.pieces`). No plan goes into them. Then the sections are settled from the first
to the last, each from what is planned for the line of its block (`Layout.settle`). The pass is the one
after the other (`Stmt.lines_eq_settle`), for every plan.

So what is to be said about declarations is said about a list of open sections. They are the sections of
the blocks in preorder (`Stmt.sections_pieces`), and each gets what is planned for its line unless a block
before it in that line did (`Layout.settle_eq`). If no two blocks stand in one line, each gets what is
planned for its line (`Layout.settle_eq_fill`).
-/

namespace Routine

/-- A part of a layout: a line, or the place for the declarations of a block. -/
inductive Piece where
  | line (l : Line)
  | declare (depth : Nat) (b : Block)

namespace Piece

/-- The block that an open section belongs to. -/
def block? : Piece → Option Block
  | line _ => none
  | declare _ b => some b

/-- The lines as pieces. -/
def ofLines (ls : List Line) : List Piece := ls.map line

/-- The blocks of the open sections, in order. -/
def sections (ps : List Piece) : List Block := ps.filterMap block?

@[simp]
theorem sections_nil : sections [] = [] := rfl

@[simp]
theorem sections_line (l : Line) (ps : List Piece) : sections (line l :: ps) = sections ps := rfl

@[simp]
theorem sections_declare (depth : Nat) (b : Block) (ps : List Piece) :
    sections (declare depth b :: ps) = b :: sections ps := rfl

@[simp]
theorem sections_append (ps qs : List Piece) : sections (ps ++ qs) = sections ps ++ sections qs :=
  List.filterMap_append

@[simp]
theorem sections_ofLines (ls : List Line) : sections (ofLines ls) = [] := by
  induction ls with
  | nil => rfl
  | cons l ls ih => exact ih

end Piece

open Piece

/-! ## Pieces of statements -/

mutual

/-- The pieces of a statement. -/
def Stmt.pieces (y : Layout) (depth : Nat) : Stmt → List Piece
  | .block b => ofLines (Layout.labelLines depth b.label) ++ declare depth b :: b.inside y depth false
  | .simple _ s => [line ⟨depth, y.simple s ++ ";"⟩]
  | .conditional _ condition body arms otherwise =>
    line ⟨depth, spaced [y.keyword "IF", y.leaf condition, y.keyword "THEN"]⟩ ::
      Stmts.pieces y (depth + 1) body ++ Arms.conditionalPieces y depth arms ++
      (if otherwise.isEmpty then []
        else line ⟨depth, y.keyword "ELSE"⟩ :: Stmts.pieces y (depth + 1) otherwise) ++
      [line ⟨depth, y.keyword "END IF;"⟩]
  | .choice _ operand _ arms hasElse otherwise =>
    line ⟨depth, y.caseHead operand⟩ :: Arms.choicePieces y depth operand.isSome arms ++
      (if hasElse then line ⟨depth + 1, y.keyword "ELSE"⟩ :: Stmts.pieces y (depth + 2) otherwise
        else []) ++
      [line ⟨depth, y.keyword "END CASE;"⟩]
  | .loop _ label head body =>
    ofLines (Layout.labelLines depth label) ++ line ⟨depth, y.head head⟩ ::
      Stmts.pieces y (depth + 1) body ++ [line ⟨depth, y.closing "END LOOP" label ++ ";"⟩]

/-- The pieces of statements. -/
def Stmts.pieces (y : Layout) (depth : Nat) : List Stmt → List Piece
  | [] => []
  | s :: ss => s.pieces y depth ++ Stmts.pieces y depth ss

/-- The pieces of a block from its `BEGIN` to its `END`. -/
def Block.inside (y : Layout) (depth : Nat) (outermost : Bool) : Block → List Piece
  | ⟨_, label, body, handlers⟩ =>
    line ⟨depth, y.keyword "BEGIN"⟩ :: Stmts.pieces y (depth + 1) body ++
      Handlers.pieces? y depth handlers ++
      [line ⟨depth, y.closing "END" label ++ (if outermost then "" else ";")⟩]

/-- The pieces of handlers, if there are any. -/
def Handlers.pieces? (y : Layout) (depth : Nat) : Option (List Handler) → List Piece
  | none => []
  | some hs => line ⟨depth, y.keyword "EXCEPTION"⟩ :: Handlers.pieces y depth hs

/-- The pieces of handlers. -/
def Handlers.pieces (y : Layout) (depth : Nat) : List Handler → List Piece
  | [] => []
  | ⟨_, conditions, action⟩ :: hs =>
    line ⟨depth + 1, y.handlerHead conditions⟩ :: Stmts.pieces y (depth + 2) action ++
      Handlers.pieces y depth hs

/-- The pieces of the further arms of a conditional. -/
def Arms.conditionalPieces (y : Layout) (depth : Nat) : List Arm → List Piece
  | [] => []
  | ⟨_, condition, body⟩ :: as =>
    line ⟨depth, spaced [y.keyword "ELSIF", y.leaf condition, y.keyword "THEN"]⟩ ::
      Stmts.pieces y (depth + 1) body ++ Arms.conditionalPieces y depth as

/-- The pieces of the arms of a `CASE`. -/
def Arms.choicePieces (y : Layout) (depth : Nat) (hasOperand : Bool) : List Arm → List Piece
  | [] => []
  | ⟨_, condition, body⟩ :: as =>
    line ⟨depth + 1, spaced [y.keyword "WHEN", y.armCondition hasOperand condition, y.keyword "THEN"]⟩ ::
      Stmts.pieces y (depth + 2) body ++ Arms.choicePieces y depth hasOperand as

end

/-- The pieces of a block: its label, its declarations, and what is inside. -/
def Block.pieces (y : Layout) (depth : Nat) (outermost : Bool) (b : Block) : List Piece :=
  ofLines (Layout.labelLines depth b.label) ++ declare depth b :: b.inside y depth outermost

namespace Layout

variable (y : Layout)

/-- The pieces with every section settled from what is planned for the line of its block. -/
def settle (pending : Pending) : List Piece → Laid
  | [] => ([], pending)
  | .line l :: ps =>
    let (rest, pending) := settle pending ps
    (l :: rest, pending)
  | .declare depth b :: ps =>
    let (rest, pending') := settle (pending.erase b.line) ps
    (y.declarations depth (pending.find b.line) ++ rest, pending')

/-- The pieces with the sections declared from a list, one after the other. -/
def fill : List (List Nat) → List Piece → List Line
  | _, [] => []
  | sections, .line l :: ps => l :: fill sections ps
  | sections, .declare depth _ :: ps =>
    y.declarations depth (sections.headD []) ++ fill sections.tail ps

theorem settle_append (pending : Pending) (ps qs : List Piece) :
    y.settle pending (ps ++ qs) =
      ((y.settle pending ps).1 ++ (y.settle (y.settle pending ps).2 qs).1,
        (y.settle (y.settle pending ps).2 qs).2) := by
  induction ps generalizing pending with
  | nil => rfl
  | cons p ps ih =>
    cases p with
    | line l => simp only [List.cons_append, settle, ih]
    | declare depth b => simp only [List.cons_append, settle, ih, List.append_assoc]

@[simp]
theorem settle_ofLines (pending : Pending) (ls : List Line) :
    y.settle pending (ofLines ls) = (ls, pending) := by
  induction ls with
  | nil => rfl
  | cons l ls ih =>
    show (l :: (y.settle pending (ofLines ls)).1, (y.settle pending (ofLines ls)).2) = _
    rw [ih]

end Layout

/-! ## The pass is the pieces, settled -/

section

variable (y : Layout)

-- The induction is on the statements, for every plan: each part is settled from what the parts before it
-- left over.
mutual

theorem Stmt.lines_eq_settle (depth : Nat) (pending : Pending) : (s : Stmt) →
    s.lines y depth pending = y.settle pending (s.pieces y depth)
  | .block b => by
    rw [Stmt.lines, Stmt.pieces, Layout.settle_append, Layout.settle_ofLines, Layout.settle,
      Block.lines_eq_settle depth _ false _ b, List.append_assoc]
  | .simple _ s => by
    rw [Stmt.lines, Stmt.pieces]
    rfl
  | .conditional _ condition body arms otherwise => by
    simp only [Stmt.lines, Stmt.pieces, Stmts.lines_eq_settle (depth + 1) _ body,
      Arms.conditionalLines_eq_settle depth _ arms, Stmts.lines_eq_settle (depth + 1) _ otherwise]
    cases otherwise with
    | nil =>
      simp only [Stmts.pieces, List.isEmpty_nil, if_true, List.append_nil, List.cons_append,
        Layout.settle, Layout.settle_append]
    | cons s ss =>
      simp only [List.isEmpty_cons, Bool.false_eq_true, if_false, List.cons_append, List.append_assoc,
        Layout.settle, Layout.settle_append]
  | .choice _ operand _ arms hasElse otherwise => by
    simp only [Stmt.lines, Stmt.pieces, Arms.choiceLines_eq_settle depth _ _ arms,
      Stmts.lines_eq_settle (depth + 2) _ otherwise]
    cases hasElse with
    | false =>
      simp only [Bool.false_eq_true, if_false, List.append_nil, List.cons_append, Layout.settle,
        Layout.settle_append]
    | true =>
      simp only [if_true, List.cons_append, List.append_assoc, Layout.settle, Layout.settle_append]
  | .loop _ label head body => by
    simp only [Stmt.lines, Stmt.pieces, Stmts.lines_eq_settle (depth + 1) _ body, List.cons_append,
      List.append_assoc, Layout.settle, Layout.settle_append, Layout.settle_ofLines]

theorem Stmts.lines_eq_settle (depth : Nat) (pending : Pending) : (ss : List Stmt) →
    Stmts.lines y depth pending ss = y.settle pending (Stmts.pieces y depth ss)
  | [] => by
    rw [Stmts.lines, Stmts.pieces]
    rfl
  | s :: ss => by
    simp only [Stmts.lines, Stmts.pieces, Layout.settle_append, Stmt.lines_eq_settle depth _ s,
      Stmts.lines_eq_settle depth _ ss]

theorem Block.lines_eq_settle (depth : Nat) (places : List Nat) (outermost : Bool) (pending : Pending) :
    (b : Block) →
    b.lines y depth places outermost pending =
      (Layout.labelLines depth b.label ++ y.declarations depth places ++
        (y.settle pending (b.inside y depth outermost)).1,
        (y.settle pending (b.inside y depth outermost)).2)
  | ⟨_, label, body, handlers⟩ => by
    simp only [Block.lines, Block.inside, List.cons_append, Layout.settle, Layout.settle_append,
      Stmts.lines_eq_settle (depth + 1) _ body, Handlers.lines?_eq_settle depth _ handlers,
      List.append_assoc]

theorem Handlers.lines?_eq_settle (depth : Nat) (pending : Pending) : (hs : Option (List Handler)) →
    Handlers.lines? y depth pending hs = y.settle pending (Handlers.pieces? y depth hs)
  | none => by
    rw [Handlers.lines?, Handlers.pieces?]
    rfl
  | some hs => by
    simp only [Handlers.lines?, Handlers.pieces?, Layout.settle, Handlers.lines_eq_settle depth _ hs]

theorem Handlers.lines_eq_settle (depth : Nat) (pending : Pending) : (hs : List Handler) →
    Handlers.lines y depth pending hs = y.settle pending (Handlers.pieces y depth hs)
  | [] => by
    rw [Handlers.lines, Handlers.pieces]
    rfl
  | ⟨_, conditions, action⟩ :: hs => by
    simp only [Handlers.lines, Handlers.pieces, List.cons_append, Layout.settle, Layout.settle_append,
      Stmts.lines_eq_settle (depth + 2) _ action, Handlers.lines_eq_settle depth _ hs]

theorem Arms.conditionalLines_eq_settle (depth : Nat) (pending : Pending) : (as : List Arm) →
    Arms.conditionalLines y depth pending as = y.settle pending (Arms.conditionalPieces y depth as)
  | [] => by
    rw [Arms.conditionalLines, Arms.conditionalPieces]
    rfl
  | ⟨_, condition, body⟩ :: as => by
    simp only [Arms.conditionalLines, Arms.conditionalPieces, List.cons_append, Layout.settle,
      Layout.settle_append, Stmts.lines_eq_settle (depth + 1) _ body,
      Arms.conditionalLines_eq_settle depth _ as]

theorem Arms.choiceLines_eq_settle (depth : Nat) (hasOperand : Bool) (pending : Pending) :
    (as : List Arm) →
    Arms.choiceLines y depth hasOperand pending as =
      y.settle pending (Arms.choicePieces y depth hasOperand as)
  | [] => by
    rw [Arms.choiceLines, Arms.choicePieces]
    rfl
  | ⟨_, condition, body⟩ :: as => by
    simp only [Arms.choiceLines, Arms.choicePieces, List.cons_append, Layout.settle,
      Layout.settle_append, Stmts.lines_eq_settle (depth + 2) _ body,
      Arms.choiceLines_eq_settle depth hasOperand _ as]

end
end

/-! ## Sections in preorder -/

/-- The block that a statement is. -/
def Stmt.block? : Stmt → Option Block
  | .block b => some b
  | _ => none

/-- A `CASE` that has statements for no arm says so. -/
def Stmt.KeepsElse : Stmt → Prop
  | .choice _ _ _ _ hasElse otherwise => otherwise ≠ [] → hasElse = true
  | _ => True

section

variable {y : Layout}

-- A traversal of its own, since sections are opened by the layout and preorder is a walk over the tree.
-- They part only at a `CASE` whose last statements are not shown.
mutual

theorem Stmt.sections_pieces {depth : Nat} : (s : Stmt) → (∀ t ∈ s.preorder, t.KeepsElse) →
    sections (s.pieces y depth) = s.preorder.filterMap Stmt.block?
  | .block b, h => by
    rw [Stmt.preorder] at h ⊢
    obtain ⟨-, hinside⟩ := List.forall_mem_cons.1 h
    rw [Stmt.pieces, sections_append, sections_ofLines, sections_declare,
      Block.sections_inside b hinside]
    rfl
  | .simple _ s, _ => by
    rw [Stmt.pieces, Stmt.preorder]
    rfl
  | .conditional _ _ body arms otherwise, h => by
    rw [Stmt.preorder] at h ⊢
    simp only [List.forall_mem_cons, List.forall_mem_append] at h
    obtain ⟨-, ⟨hbody, harms⟩, hotherwise⟩ := h
    have helse : sections (if otherwise.isEmpty then []
        else .line ⟨depth, y.keyword "ELSE"⟩ :: Stmts.pieces y (depth + 1) otherwise) =
          (Stmts.preorder otherwise).filterMap Stmt.block? := by
      have hpieces : sections (Stmts.pieces y (depth + 1) otherwise) =
          (Stmts.preorder otherwise).filterMap Stmt.block? := Stmts.sections_pieces otherwise hotherwise
      rw [← hpieces]
      cases otherwise with
      | nil => rw [Stmts.pieces]; rfl
      | cons s ss => rfl
    simp only [Stmt.pieces, List.cons_append, sections_line, sections_append, sections_nil,
      Stmts.sections_pieces body hbody, Arms.sections_conditionalPieces arms harms, helse,
      List.append_nil, List.filterMap_cons, List.filterMap_append, Stmt.block?]
  | .choice _ _ _ arms hasElse otherwise, h => by
    rw [Stmt.preorder] at h ⊢
    simp only [List.forall_mem_cons, List.forall_mem_append] at h
    obtain ⟨hkeeps, harms, hotherwise⟩ := h
    have helse : sections (if hasElse then
        .line ⟨depth + 1, y.keyword "ELSE"⟩ :: Stmts.pieces y (depth + 2) otherwise else []) =
          (Stmts.preorder otherwise).filterMap Stmt.block? := by
      have hpieces : sections (Stmts.pieces y (depth + 2) otherwise) =
          (Stmts.preorder otherwise).filterMap Stmt.block? := Stmts.sections_pieces otherwise hotherwise
      rw [← hpieces]
      cases hasElse with
      | true => rfl
      | false =>
        -- Statements that are not shown are none.
        cases otherwise with
        | nil => rw [Stmts.pieces]; rfl
        | cons s ss => exact absurd (hkeeps (List.cons_ne_nil s ss)) Bool.false_ne_true
    simp only [Stmt.pieces, List.cons_append, sections_line, sections_append, sections_nil,
      Arms.sections_choicePieces arms harms, helse, List.append_nil, List.filterMap_cons,
      List.filterMap_append, Stmt.block?]
  | .loop _ _ _ body, h => by
    rw [Stmt.preorder] at h ⊢
    obtain ⟨-, hbody⟩ := List.forall_mem_cons.1 h
    simp only [Stmt.pieces, sections_line, sections_append, sections_ofLines, sections_nil,
      Stmts.sections_pieces body hbody, List.nil_append, List.append_nil, List.filterMap_cons,
      Stmt.block?]

theorem Stmts.sections_pieces {depth : Nat} : (ss : List Stmt) →
    (∀ t ∈ Stmts.preorder ss, t.KeepsElse) →
      sections (Stmts.pieces y depth ss) = (Stmts.preorder ss).filterMap Stmt.block?
  | [], _ => by rw [Stmts.pieces, Stmts.preorder]; rfl
  | s :: ss, h => by
    rw [Stmts.preorder] at h ⊢
    obtain ⟨hs, hss⟩ := List.forall_mem_append.1 h
    rw [Stmts.pieces, sections_append, Stmt.sections_pieces s hs, Stmts.sections_pieces ss hss,
      List.filterMap_append]

theorem Block.sections_inside {depth : Nat} {outermost : Bool} : (b : Block) →
    (∀ t ∈ b.preorder, t.KeepsElse) →
      sections (b.inside y depth outermost) = b.preorder.filterMap Stmt.block?
  | ⟨_, _, body, handlers⟩, h => by
    rw [Block.preorder] at h ⊢
    obtain ⟨hbody, hhandlers⟩ := List.forall_mem_append.1 h
    simp only [Block.inside, List.cons_append, sections_line, sections_append, sections_nil,
      Stmts.sections_pieces body hbody, Handlers.sections_pieces? handlers hhandlers, List.append_nil,
      List.filterMap_append]

theorem Handlers.sections_pieces? {depth : Nat} : (hs : Option (List Handler)) →
    (∀ t ∈ Handlers.preorder? hs, t.KeepsElse) →
      sections (Handlers.pieces? y depth hs) = (Handlers.preorder? hs).filterMap Stmt.block?
  | none, _ => by rw [Handlers.pieces?, Handlers.preorder?]; rfl
  | some hs, h => by
    rw [Handlers.preorder?] at h ⊢
    rw [Handlers.pieces?, sections_line, Handlers.sections_pieces hs h]

theorem Handlers.sections_pieces {depth : Nat} : (hs : List Handler) →
    (∀ t ∈ Handlers.preorder hs, t.KeepsElse) →
      sections (Handlers.pieces y depth hs) = (Handlers.preorder hs).filterMap Stmt.block?
  | [], _ => by rw [Handlers.pieces, Handlers.preorder]; rfl
  | ⟨_, _, action⟩ :: hs, h => by
    rw [Handlers.preorder] at h ⊢
    obtain ⟨haction, hhs⟩ := List.forall_mem_append.1 h
    rw [Handlers.pieces, List.cons_append, sections_line, sections_append,
      Stmts.sections_pieces action haction, Handlers.sections_pieces hs hhs, List.filterMap_append]

theorem Arms.sections_conditionalPieces {depth : Nat} : (as : List Arm) →
    (∀ t ∈ Arms.preorder as, t.KeepsElse) →
      sections (Arms.conditionalPieces y depth as) = (Arms.preorder as).filterMap Stmt.block?
  | [], _ => by rw [Arms.conditionalPieces, Arms.preorder]; rfl
  | ⟨_, _, body⟩ :: as, h => by
    rw [Arms.preorder] at h ⊢
    obtain ⟨hbody, has⟩ := List.forall_mem_append.1 h
    rw [Arms.conditionalPieces, List.cons_append, sections_line, sections_append,
      Stmts.sections_pieces body hbody, Arms.sections_conditionalPieces as has, List.filterMap_append]

theorem Arms.sections_choicePieces {depth : Nat} {hasOperand : Bool} : (as : List Arm) →
    (∀ t ∈ Arms.preorder as, t.KeepsElse) →
      sections (Arms.choicePieces y depth hasOperand as) = (Arms.preorder as).filterMap Stmt.block?
  | [], _ => by rw [Arms.choicePieces, Arms.preorder]; rfl
  | ⟨_, _, body⟩ :: as, h => by
    rw [Arms.preorder] at h ⊢
    obtain ⟨hbody, has⟩ := List.forall_mem_append.1 h
    rw [Arms.choicePieces, List.cons_append, sections_line, sections_append,
      Stmts.sections_pieces body hbody, Arms.sections_choicePieces as has, List.filterMap_append]

end
end

/-! ## What each section gets -/

namespace Pending

/-- What the blocks get, one after the other: what is planned for a line goes to the first block in it. -/
def takenBy : Pending → List Block → List (List Nat)
  | _, [] => []
  | p, b :: bs => p.find b.line :: takenBy (p.erase b.line) bs

/-- What is planned for lines that none of the blocks stands in. -/
def leftBy : Pending → List Block → Pending
  | p, [] => p
  | p, b :: bs => leftBy (p.erase b.line) bs

theorem find_erase_of_ne {line other : Int32} (h : line ≠ other) (p : Pending) :
    (p.erase other).find line = p.find line := by
  have hfind : (p.erase other).find? (fun entry => entry.1 = line) = p.find? fun entry => entry.1 = line := by
    rw [erase, List.find?_filter]
    congr 1
    funext entry
    by_cases hentry : entry.1 = line
    · simp [hentry, h]
    · simp [hentry]
  rw [find, hfind, find]

/-- If no two blocks stand in one line, each gets what is planned for its line. -/
theorem takenBy_eq_map_find {p : Pending} {bs : List Block} (h : (bs.map Block.line).Nodup) :
    p.takenBy bs = bs.map fun b => p.find b.line := by
  induction bs generalizing p with
  | nil => rfl
  | cons b bs ih =>
    obtain ⟨hb, hbs⟩ := List.nodup_cons.1 h
    -- What is planned for the blocks after this one is not used up by it.
    have hlater : bs.map (fun b' => (p.erase b.line).find b'.line) = bs.map fun b' => p.find b'.line := by
      refine List.map_congr_left fun b' hb' => find_erase_of_ne ?_ p
      intro heq
      exact hb (heq ▸ List.mem_map_of_mem hb')
    rw [takenBy, ih hbs, hlater, List.map_cons]

end Pending

namespace Layout

variable (y : Layout)

/-- Settling fills each section with what its block gets, whatever lines the blocks stand in. -/
theorem settle_eq (p : Pending) (ps : List Piece) :
    y.settle p ps = (y.fill (p.takenBy (sections ps)) ps, p.leftBy (sections ps)) := by
  induction ps generalizing p with
  | nil => rfl
  | cons piece ps ih =>
    cases piece with
    | line l =>
      show (l :: (y.settle p ps).1, (y.settle p ps).2) = _
      rw [ih p, sections_line]
      rfl
    | declare depth b =>
      show (y.declarations depth (p.find b.line) ++ (y.settle (p.erase b.line) ps).1,
        (y.settle (p.erase b.line) ps).2) = _
      rw [ih (p.erase b.line), sections_declare]
      rfl

/-- If no two sections belong to one line, each gets what is planned for its line. -/
theorem settle_eq_fill {ps : List Piece} {pending : Pending} (h : ((sections ps).map Block.line).Nodup) :
    (y.settle pending ps).1 = y.fill ((sections ps).map fun b => pending.find b.line) ps := by
  rw [settle_eq, Pending.takenBy_eq_map_find h]

end Layout

end Routine
