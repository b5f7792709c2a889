import Mathlib.Data.List.Forall2
import Routine.Proofs.LoopVariables
import Routine.Slot

/-!
# Trees up to lines

Trees of one routine that come from different texts differ in the lines of their statements. To compare them, lines
are set to zero. What is to be compared is said here without zeros: two trees are the same but for lines if they are
built alike from the same parts, the lines of blocks, statements, arms and handlers apart (`ParseTree.SameButLines`).

Clearing lines gives the same tree exactly for such trees (`ParseTree.clearLines_eq_iff`), and a cleared tree is one of
them, so it stands for all of them. Nothing else is lost on the way: the slots are those of the tree
(`ParseTree.slots_clearLines`), and a walk meets the cleared statements in the order of the statements
(`Block.preorder_clearLines`), each with the data that stand in it.
-/

namespace Routine

/-! ## The same but for lines -/

mutual

/-- The statements differ in lines only. -/
def Stmt.SameButLines : Stmt → Stmt → Prop
  | .block b, .block b' => b.SameButLines b'
  | .simple _ s, .simple _ s' => s = s'
  | .conditional _ condition body arms otherwise, .conditional _ condition' body' arms' otherwise' =>
    condition = condition' ∧ Stmts.SameButLines body body' ∧ Arms.SameButLines arms arms' ∧
      Stmts.SameButLines otherwise otherwise'
  | .choice _ operand number arms hasElse otherwise, .choice _ operand' number' arms' hasElse' otherwise' =>
    operand = operand' ∧ number = number' ∧ Arms.SameButLines arms arms' ∧ hasElse = hasElse' ∧
      Stmts.SameButLines otherwise otherwise'
  | .loop _ label head body, .loop _ label' head' body' =>
    label = label' ∧ head = head' ∧ Stmts.SameButLines body body'
  | _, _ => False

/-- The lists have the same statements, but for lines. -/
def Stmts.SameButLines : List Stmt → List Stmt → Prop
  | [], [] => True
  | s :: ss, s' :: ss' => s.SameButLines s' ∧ Stmts.SameButLines ss ss'
  | _, _ => False

/-- The blocks differ in lines only. -/
def Block.SameButLines : Block → Block → Prop
  | ⟨_, label, body, handlers⟩, ⟨_, label', body', handlers'⟩ =>
    label = label' ∧ Stmts.SameButLines body body' ∧ Handlers.SameButLines? handlers handlers'

/-- There are the same handlers, but for lines, or none on either side. -/
def Handlers.SameButLines? : Option (List Handler) → Option (List Handler) → Prop
  | none, none => True
  | some hs, some hs' => Handlers.SameButLines hs hs'
  | _, _ => False

/-- The lists have the same handlers, but for lines. -/
def Handlers.SameButLines : List Handler → List Handler → Prop
  | [], [] => True
  | ⟨_, conditions, action⟩ :: hs, ⟨_, conditions', action'⟩ :: hs' =>
    conditions = conditions' ∧ Stmts.SameButLines action action' ∧ Handlers.SameButLines hs hs'
  | _, _ => False

/-- The lists have the same arms, but for lines. -/
def Arms.SameButLines : List Arm → List Arm → Prop
  | [], [] => True
  | ⟨_, condition, body⟩ :: as, ⟨_, condition', body'⟩ :: as' =>
    condition = condition' ∧ Stmts.SameButLines body body' ∧ Arms.SameButLines as as'
  | _, _ => False

end

/-- The routines have one table of data and differ in the lines of their statements only. The lines of data are part of
the table. -/
def Function.SameButLines (f f' : Function) : Prop :=
  f.data = f'.data ∧ f.action.SameButLines f'.action

/-- The trees differ in the lines of statements only. -/
def ParseTree.SameButLines : ParseTree → ParseTree → Prop := List.Forall₂ Function.SameButLines

-- The induction is on the first statement; a second one of another kind is cleared to something of its own kind.
mutual

theorem Stmt.clearLines_eq_iff : (s s' : Stmt) → (s.clearLines = s'.clearLines ↔ s.SameButLines s')
  | .block b, s' => by
    cases s' with
    | block b' => simp [Stmt.clearLines, Stmt.SameButLines, Block.clearLines_eq_iff b b']
    | _ => simp [Stmt.clearLines, Stmt.SameButLines]
  | .simple _ s, s' => by
    cases s' <;> simp [Stmt.clearLines, Stmt.SameButLines]
  | .conditional _ condition body arms otherwise, s' => by
    cases s' with
    | conditional _ condition' body' arms' otherwise' =>
      simp [Stmt.clearLines, Stmt.SameButLines, Stmts.clearLines_eq_iff body body',
        Arms.clearLines_eq_iff arms arms', Stmts.clearLines_eq_iff otherwise otherwise']
    | _ => simp [Stmt.clearLines, Stmt.SameButLines]
  | .choice _ operand number arms hasElse otherwise, s' => by
    cases s' with
    | choice _ operand' number' arms' hasElse' otherwise' =>
      simp [Stmt.clearLines, Stmt.SameButLines, Arms.clearLines_eq_iff arms arms',
        Stmts.clearLines_eq_iff otherwise otherwise']
    | _ => simp [Stmt.clearLines, Stmt.SameButLines]
  | .loop _ label head body, s' => by
    cases s' with
    | loop _ label' head' body' =>
      simp [Stmt.clearLines, Stmt.SameButLines, Stmts.clearLines_eq_iff body body']
    | _ => simp [Stmt.clearLines, Stmt.SameButLines]

theorem Stmts.clearLines_eq_iff : (ss ss' : List Stmt) →
    (Stmts.clearLines ss = Stmts.clearLines ss' ↔ Stmts.SameButLines ss ss')
  | [], [] => by simp [Stmts.SameButLines]
  | [], _ :: _ => by simp [Stmts.clearLines, Stmts.SameButLines]
  | _ :: _, [] => by simp [Stmts.clearLines, Stmts.SameButLines]
  | s :: ss, s' :: ss' => by
    simp [Stmts.clearLines, Stmts.SameButLines, Stmt.clearLines_eq_iff s s', Stmts.clearLines_eq_iff ss ss']

theorem Block.clearLines_eq_iff : (b b' : Block) → (b.clearLines = b'.clearLines ↔ b.SameButLines b')
  | ⟨_, label, body, handlers⟩, ⟨_, label', body', handlers'⟩ => by
    simp [Block.clearLines, Block.SameButLines, Stmts.clearLines_eq_iff body body',
      Handlers.clearLines?_eq_iff handlers handlers']

theorem Handlers.clearLines?_eq_iff : (hs hs' : Option (List Handler)) →
    (Handlers.clearLines? hs = Handlers.clearLines? hs' ↔ Handlers.SameButLines? hs hs')
  | none, none => by simp [Handlers.SameButLines?]
  | none, some _ => by simp [Handlers.clearLines?, Handlers.SameButLines?]
  | some _, none => by simp [Handlers.clearLines?, Handlers.SameButLines?]
  | some hs, some hs' => by
    simp [Handlers.clearLines?, Handlers.SameButLines?, Handlers.clearLines_eq_iff hs hs']

theorem Handlers.clearLines_eq_iff : (hs hs' : List Handler) →
    (Handlers.clearLines hs = Handlers.clearLines hs' ↔ Handlers.SameButLines hs hs')
  | [], [] => by simp [Handlers.SameButLines]
  | [], ⟨_, _, _⟩ :: _ => by simp [Handlers.clearLines, Handlers.SameButLines]
  | ⟨_, _, _⟩ :: _, [] => by simp [Handlers.clearLines, Handlers.SameButLines]
  | ⟨_, conditions, action⟩ :: hs, ⟨_, conditions', action'⟩ :: hs' => by
    simp [Handlers.clearLines, Handlers.SameButLines, Stmts.clearLines_eq_iff action action',
      Handlers.clearLines_eq_iff hs hs', and_assoc]

theorem Arms.clearLines_eq_iff : (as as' : List Arm) →
    (Arms.clearLines as = Arms.clearLines as' ↔ Arms.SameButLines as as')
  | [], [] => by simp [Arms.SameButLines]
  | [], ⟨_, _, _⟩ :: _ => by simp [Arms.clearLines, Arms.SameButLines]
  | ⟨_, _, _⟩ :: _, [] => by simp [Arms.clearLines, Arms.SameButLines]
  | ⟨_, condition, body⟩ :: as, ⟨_, condition', body'⟩ :: as' => by
    simp [Arms.clearLines, Arms.SameButLines, Stmts.clearLines_eq_iff body body',
      Arms.clearLines_eq_iff as as', and_assoc]

end

/-! ## Clearing twice -/

mutual

theorem Stmt.clearLines_clearLines : (s : Stmt) → s.clearLines.clearLines = s.clearLines
  | .block b => by rw [Stmt.clearLines, Stmt.clearLines, Block.clearLines_clearLines b]
  | .simple _ s => by rw [Stmt.clearLines, Stmt.clearLines]
  | .conditional _ _ body arms otherwise => by
    rw [Stmt.clearLines, Stmt.clearLines, Stmts.clearLines_clearLines body, Arms.clearLines_clearLines arms,
      Stmts.clearLines_clearLines otherwise]
  | .choice _ _ _ arms _ otherwise => by
    rw [Stmt.clearLines, Stmt.clearLines, Arms.clearLines_clearLines arms,
      Stmts.clearLines_clearLines otherwise]
  | .loop _ _ _ body => by rw [Stmt.clearLines, Stmt.clearLines, Stmts.clearLines_clearLines body]

theorem Stmts.clearLines_clearLines : (ss : List Stmt) →
    Stmts.clearLines (Stmts.clearLines ss) = Stmts.clearLines ss
  | [] => by simp only [Stmts.clearLines]
  | s :: ss => by
    rw [Stmts.clearLines, Stmts.clearLines, Stmt.clearLines_clearLines s, Stmts.clearLines_clearLines ss]

theorem Block.clearLines_clearLines : (b : Block) → b.clearLines.clearLines = b.clearLines
  | ⟨_, _, body, handlers⟩ => by
    rw [Block.clearLines, Block.clearLines, Stmts.clearLines_clearLines body,
      Handlers.clearLines?_clearLines? handlers]

theorem Handlers.clearLines?_clearLines? : (hs : Option (List Handler)) →
    Handlers.clearLines? (Handlers.clearLines? hs) = Handlers.clearLines? hs
  | none => by simp only [Handlers.clearLines?]
  | some hs => by rw [Handlers.clearLines?, Handlers.clearLines?, Handlers.clearLines_clearLines hs]

theorem Handlers.clearLines_clearLines : (hs : List Handler) →
    Handlers.clearLines (Handlers.clearLines hs) = Handlers.clearLines hs
  | [] => by simp only [Handlers.clearLines]
  | ⟨_, _, action⟩ :: hs => by
    rw [Handlers.clearLines, Handlers.clearLines, Stmts.clearLines_clearLines action,
      Handlers.clearLines_clearLines hs]

theorem Arms.clearLines_clearLines : (as : List Arm) →
    Arms.clearLines (Arms.clearLines as) = Arms.clearLines as
  | [] => by simp only [Arms.clearLines]
  | ⟨_, _, body⟩ :: as => by
    rw [Arms.clearLines, Arms.clearLines, Stmts.clearLines_clearLines body, Arms.clearLines_clearLines as]

end

/-! ## What stays -/

-- The path goes down with the statements and has no lines in it, so it stays general.
mutual

theorem Stmt.slots_clearLines (p : Path) : (s : Stmt) → s.clearLines.slots p = s.slots p
  | .block b => by rw [Stmt.clearLines, Stmt.slots, Stmt.slots, Block.slots_clearLines p b]
  | .simple _ s => by rw [Stmt.clearLines, Stmt.slots, Stmt.slots]
  | .conditional _ _ body arms otherwise => by
    simp only [Stmt.clearLines, Stmt.slots, Stmts.slots_clearLines p _ _ body,
      Arms.slots_clearLines p _ _ _ arms, Stmts.slots_clearLines p _ _ otherwise]
  | .choice _ _ _ arms _ otherwise => by
    simp only [Stmt.clearLines, Stmt.slots, Arms.slots_clearLines p _ _ _ arms,
      Stmts.slots_clearLines p _ _ otherwise]
  | .loop _ _ _ body => by simp only [Stmt.clearLines, Stmt.slots, Stmts.slots_clearLines p _ _ body]

theorem Stmts.slots_clearLines (p : Path) (name : String) (i : Nat) : (ss : List Stmt) →
    Stmts.slots p name i (Stmts.clearLines ss) = Stmts.slots p name i ss
  | [] => by rw [Stmts.clearLines]
  | s :: ss => by
    rw [Stmts.clearLines, Stmts.slots, Stmts.slots, Stmt.slots_clearLines _ s,
      Stmts.slots_clearLines p name (i + 1) ss]

theorem Block.slots_clearLines (p : Path) : (b : Block) → b.clearLines.slots p = b.slots p
  | ⟨_, _, body, handlers⟩ => by
    rw [Block.clearLines, Block.slots, Block.slots, Stmts.slots_clearLines p _ _ body,
      Handlers.slots?_clearLines? p handlers]

theorem Handlers.slots?_clearLines? (p : Path) : (hs : Option (List Handler)) →
    Handlers.slots? p (Handlers.clearLines? hs) = Handlers.slots? p hs
  | none => by rw [Handlers.clearLines?]
  | some hs => by
    rw [Handlers.clearLines?, Handlers.slots?, Handlers.slots?, Handlers.slots_clearLines _ 0 hs]

theorem Handlers.slots_clearLines (p : Path) (i : Nat) : (hs : List Handler) →
    Handlers.slots p i (Handlers.clearLines hs) = Handlers.slots p i hs
  | [] => by rw [Handlers.clearLines]
  | ⟨_, _, action⟩ :: hs => by
    rw [Handlers.clearLines, Handlers.slots, Handlers.slots, Stmts.slots_clearLines _ _ _ action,
      Handlers.slots_clearLines p (i + 1) hs]

theorem Arms.slots_clearLines (p : Path) (name condition : String) (i : Nat) : (as : List Arm) →
    Arms.slots p name condition i (Arms.clearLines as) = Arms.slots p name condition i as
  | [] => by rw [Arms.clearLines]
  | ⟨_, _, body⟩ :: as => by
    rw [Arms.clearLines, Arms.slots, Arms.slots, Stmts.slots_clearLines _ _ _ body,
      Arms.slots_clearLines p name condition (i + 1) as]

end

-- What is put into a leaf depends on its path and on the leaf, and clearing changes neither.
mutual

theorem Stmt.mapSlots_clearLines (m : Mapper) (p : Path) : (s : Stmt) →
    s.clearLines.mapSlots m p = (s.mapSlots m p).clearLines
  | .block b => by simp only [Stmt.clearLines, Stmt.mapSlots, Block.mapSlots_clearLines m p b]
  | .simple _ s => by simp only [Stmt.clearLines, Stmt.mapSlots]
  | .conditional _ _ body arms otherwise => by
    simp only [Stmt.clearLines, Stmt.mapSlots, Stmts.mapSlots_clearLines m p _ _ body,
      Arms.mapSlots_clearLines m p _ _ _ arms, Stmts.mapSlots_clearLines m p _ _ otherwise]
  | .choice _ _ _ arms _ otherwise => by
    simp only [Stmt.clearLines, Stmt.mapSlots, Arms.mapSlots_clearLines m p _ _ _ arms,
      Stmts.mapSlots_clearLines m p _ _ otherwise]
  | .loop _ _ _ body => by
    simp only [Stmt.clearLines, Stmt.mapSlots, Stmts.mapSlots_clearLines m p _ _ body]

theorem Stmts.mapSlots_clearLines (m : Mapper) (p : Path) (name : String) (i : Nat) : (ss : List Stmt) →
    Stmts.mapSlots m p name i (Stmts.clearLines ss) = Stmts.clearLines (Stmts.mapSlots m p name i ss)
  | [] => by simp only [Stmts.clearLines, Stmts.mapSlots]
  | s :: ss => by
    simp only [Stmts.clearLines, Stmts.mapSlots, Stmt.mapSlots_clearLines m _ s,
      Stmts.mapSlots_clearLines m p name (i + 1) ss]

theorem Block.mapSlots_clearLines (m : Mapper) (p : Path) : (b : Block) →
    b.clearLines.mapSlots m p = (b.mapSlots m p).clearLines
  | ⟨_, _, body, handlers⟩ => by
    simp only [Block.clearLines, Block.mapSlots, Stmts.mapSlots_clearLines m p _ _ body,
      Handlers.mapSlots?_clearLines? m p handlers]

theorem Handlers.mapSlots?_clearLines? (m : Mapper) (p : Path) : (hs : Option (List Handler)) →
    Handlers.mapSlots? m p (Handlers.clearLines? hs) = Handlers.clearLines? (Handlers.mapSlots? m p hs)
  | none => by simp only [Handlers.clearLines?, Handlers.mapSlots?]
  | some hs => by
    simp only [Handlers.clearLines?, Handlers.mapSlots?, Handlers.mapSlots_clearLines m _ 0 hs]

theorem Handlers.mapSlots_clearLines (m : Mapper) (p : Path) (i : Nat) : (hs : List Handler) →
    Handlers.mapSlots m p i (Handlers.clearLines hs) = Handlers.clearLines (Handlers.mapSlots m p i hs)
  | [] => by simp only [Handlers.clearLines, Handlers.mapSlots]
  | ⟨_, _, action⟩ :: hs => by
    simp only [Handlers.clearLines, Handlers.mapSlots, Stmts.mapSlots_clearLines m _ _ _ action,
      Handlers.mapSlots_clearLines m p (i + 1) hs]

theorem Arms.mapSlots_clearLines (m : Mapper) (p : Path) (name condition : String) (i : Nat) :
    (as : List Arm) →
    Arms.mapSlots m p name condition i (Arms.clearLines as) =
      Arms.clearLines (Arms.mapSlots m p name condition i as)
  | [] => by simp only [Arms.clearLines, Arms.mapSlots]
  | ⟨_, _, body⟩ :: as => by
    simp only [Arms.clearLines, Arms.mapSlots, Stmts.mapSlots_clearLines m _ _ _ body,
      Arms.mapSlots_clearLines m p name condition (i + 1) as]

end

mutual

theorem Stmt.preorder_clearLines : (s : Stmt) → s.clearLines.preorder = s.preorder.map Stmt.clearLines
  | .block b => by
    rw [Stmt.preorder, List.map_cons, ← Block.preorder_clearLines b, Stmt.clearLines, Stmt.preorder]
  | .simple _ s => by simp only [Stmt.clearLines, Stmt.preorder, List.map_cons, List.map_nil]
  | .conditional _ _ body arms otherwise => by
    simp only [Stmt.clearLines, Stmt.preorder, List.map_cons, List.map_append, Stmts.preorder_clearLines body,
      Arms.preorder_clearLines arms, Stmts.preorder_clearLines otherwise]
  | .choice _ _ _ arms _ otherwise => by
    simp only [Stmt.clearLines, Stmt.preorder, List.map_cons, List.map_append, Arms.preorder_clearLines arms,
      Stmts.preorder_clearLines otherwise]
  | .loop _ _ _ body => by
    simp only [Stmt.clearLines, Stmt.preorder, List.map_cons, Stmts.preorder_clearLines body]

theorem Stmts.preorder_clearLines : (ss : List Stmt) →
    Stmts.preorder (Stmts.clearLines ss) = (Stmts.preorder ss).map Stmt.clearLines
  | [] => by rw [Stmts.clearLines, Stmts.preorder, List.map_nil]
  | s :: ss => by
    rw [Stmts.clearLines, Stmts.preorder, Stmts.preorder, List.map_append, Stmt.preorder_clearLines s,
      Stmts.preorder_clearLines ss]

theorem Block.preorder_clearLines : (b : Block) → b.clearLines.preorder = b.preorder.map Stmt.clearLines
  | ⟨_, _, body, handlers⟩ => by
    rw [Block.clearLines, Block.preorder, Block.preorder, List.map_append, Stmts.preorder_clearLines body,
      Handlers.preorder?_clearLines? handlers]

theorem Handlers.preorder?_clearLines? : (hs : Option (List Handler)) →
    Handlers.preorder? (Handlers.clearLines? hs) = (Handlers.preorder? hs).map Stmt.clearLines
  | none => by rw [Handlers.clearLines?, Handlers.preorder?, List.map_nil]
  | some hs => by
    rw [Handlers.clearLines?, Handlers.preorder?, Handlers.preorder?, Handlers.preorder_clearLines hs]

theorem Handlers.preorder_clearLines : (hs : List Handler) →
    Handlers.preorder (Handlers.clearLines hs) = (Handlers.preorder hs).map Stmt.clearLines
  | [] => by rw [Handlers.clearLines, Handlers.preorder, List.map_nil]
  | ⟨_, _, action⟩ :: hs => by
    rw [Handlers.clearLines, Handlers.preorder, Handlers.preorder, List.map_append,
      Stmts.preorder_clearLines action, Handlers.preorder_clearLines hs]

theorem Arms.preorder_clearLines : (as : List Arm) →
    Arms.preorder (Arms.clearLines as) = (Arms.preorder as).map Stmt.clearLines
  | [] => by rw [Arms.clearLines, Arms.preorder, List.map_nil]
  | ⟨_, _, body⟩ :: as => by
    rw [Arms.clearLines, Arms.preorder, Arms.preorder, List.map_append, Stmts.preorder_clearLines body,
      Arms.preorder_clearLines as]

end

/-! ## Lines and data of statements -/

/-- The data that stand in a simple statement: what it puts a result into. -/
def Simple.embedded : Simple → List Datum
  | execute _ into => into.target.toList
  | executeDynamic _ into _ => into.target.toList
  | fetch target .. => target.toList
  | call _ _ target => target.toList
  | _ => []

/-- The data that stand in a statement itself, and not in the statements inside it. -/
def Stmt.embedded : Stmt → List Datum
  | block _ => []
  | simple _ s => s.embedded
  | conditional .. => []
  | choice .. => []
  | loop _ _ head _ => head.target?.toList

/-- The data that stand in the statements of a routine, statement by statement. -/
def Function.embedded (f : Function) : List (List Datum) := f.action.preorder.map Stmt.embedded

theorem Block.line_clearLines (b : Block) : b.clearLines.line = 0 := by
  obtain ⟨line, label, body, handlers⟩ := b
  rw [Block.clearLines]

theorem Stmt.line_clearLines (s : Stmt) : s.clearLines.line = 0 := by
  cases s with
  | block b =>
    rw [Stmt.clearLines]
    exact b.line_clearLines
  | _ => rw [Stmt.clearLines, Stmt.line]

theorem Stmt.embedded_clearLines (s : Stmt) : s.clearLines.embedded = s.embedded := by
  cases s <;> rw [Stmt.clearLines, Stmt.embedded, Stmt.embedded]

namespace ParseTree

variable (t : ParseTree)

theorem clearLines_eq_iff (u : ParseTree) : t.clearLines = u.clearLines ↔ t.SameButLines u := by
  have hfunction : ∀ f f' : Function,
      ({ f with action := f.action.clearLines } : Function) = { f' with action := f'.action.clearLines } ↔
        f.SameButLines f' := by
    intro f f'
    rw [Function.mk.injEq, Block.clearLines_eq_iff, Function.SameButLines]
  rw [SameButLines, clearLines, clearLines, ← List.forall₂_eq_eq_eq, List.forall₂_map_left_iff,
    List.forall₂_map_right_iff]
  simp only [hfunction]

theorem clearLines_clearLines : t.clearLines.clearLines = t.clearLines := by
  simp only [clearLines, List.map_map, Function.comp_def, Block.clearLines_clearLines]

theorem slotsFrom_clearLines (i : Nat) : slotsFrom i t.clearLines = slotsFrom i t := by
  induction t generalizing i with
  | nil => rfl
  | cons f fs ih =>
    have hfirst : ({ f with action := f.action.clearLines } : Function).slots i = f.slots i := by
      rw [Function.slots, Function.slots, Block.slots_clearLines]
    show Function.slots i { f with action := f.action.clearLines } ++ slotsFrom (i + 1) (clearLines fs) = _
    rw [hfirst, ih, slotsFrom]

/-- The leaves and their paths stay. -/
theorem slots_clearLines : t.clearLines.slots = t.slots := t.slotsFrom_clearLines 0

theorem mapSlotsFrom_clearLines (m : Mapper) (i : Nat) :
    mapSlotsFrom m i t.clearLines = clearLines (mapSlotsFrom m i t) := by
  induction t generalizing i with
  | nil => rfl
  | cons f fs ih =>
    have hfirst : ({ f with action := f.action.clearLines } : Function).mapSlots m i =
        { f.mapSlots m i with action := (f.mapSlots m i).action.clearLines } := by
      rw [Function.mapSlots, Function.mapSlots, Block.mapSlots_clearLines]
    show Function.mapSlots m i { f with action := f.action.clearLines } ::
      mapSlotsFrom m (i + 1) (clearLines fs) = _
    rw [hfirst, ih, mapSlotsFrom]
    rfl

/-- It is the same to change leaves before lines are cleared and after. -/
theorem mapSlots_clearLines (m : Mapper) : t.clearLines.mapSlots m = (t.mapSlots m).clearLines :=
  t.mapSlotsFrom_clearLines m 0

theorem data_clearLines : t.clearLines.map Function.data = t.map Function.data := by
  simp only [clearLines, List.map_map, Function.comp_def]

theorem embedded_clearLines : t.clearLines.map Function.embedded = t.map Function.embedded := by
  rw [clearLines, List.map_map]
  refine List.map_congr_left ?_
  intro f _
  show f.action.clearLines.preorder.map Stmt.embedded = f.action.preorder.map Stmt.embedded
  rw [Block.preorder_clearLines, List.map_map]
  exact List.map_congr_left fun s _ => s.embedded_clearLines

theorem line_eq_zero_of_mem_clearLines {f : Function} (hf : f ∈ t.clearLines) :
    f.action.line = 0 ∧ ∀ s ∈ f.action.preorder, s.line = 0 := by
  obtain ⟨f, -, rfl⟩ := List.mem_map.1 hf
  refine ⟨f.action.line_clearLines, ?_⟩
  intro s hs
  rw [Block.preorder_clearLines] at hs
  obtain ⟨s, -, rfl⟩ := List.mem_map.1 hs
  exact s.line_clearLines

end ParseTree

/-- **A tree with its lines cleared stands for all trees that differ in lines only.** Two trees have the same cleared
tree exactly if they differ in the lines of statements, arms and handlers and in nothing else. Clearing once more
changes nothing. The tables of data stay, with their lines, and so do the data that stand in statements and the leaves
with their paths; all statements that a walk meets are in line zero. -/
theorem cleared_trees_stand_for_their_kind (t u : ParseTree) :
    (t.clearLines = u.clearLines ↔ t.SameButLines u) ∧
      t.SameButLines t.clearLines ∧
      t.clearLines.clearLines = t.clearLines ∧
      t.clearLines.map Function.data = t.map Function.data ∧
      t.clearLines.map Function.embedded = t.map Function.embedded ∧
      t.clearLines.slots = t.slots ∧
      ∀ f ∈ t.clearLines, f.action.line = 0 ∧ ∀ s ∈ f.action.preorder, s.line = 0 := by
  have hself : t.SameButLines t.clearLines := (t.clearLines_eq_iff _).1 t.clearLines_clearLines.symm
  exact ⟨t.clearLines_eq_iff u, hself, t.clearLines_clearLines, t.data_clearLines, t.embedded_clearLines,
    t.slots_clearLines, fun _ hf => t.line_eq_zero_of_mem_clearLines hf⟩

/-! ### A routine moved down, without and with its declarations -/

theorem cleared_trees_stand_for_their_kind_counting :
    ParseTree.SameButLines [counting 1 2] [⟨(counting 1 2).data, (counting 5 2).action⟩] ∧
      ¬ ParseTree.SameButLines [counting 1 2] [counting 5 2] ∧
      ∃ f ∈ ParseTree.clearLines [counting 1 2],
        f.action.preorder.length = 2 ∧ ∀ s ∈ f.action.preorder, s.line = 0 := by
  obtain ⟨hmoved, -, -, -, -, -, hzero⟩ :=
    cleared_trees_stand_for_their_kind [counting 1 2] [⟨(counting 1 2).data, (counting 5 2).action⟩]
  obtain ⟨hother, -⟩ := cleared_trees_stand_for_their_kind [counting 1 2] [counting 5 2]
  refine ⟨hmoved.1 rfl, ?_, _, List.mem_cons_self, rfl, (hzero _ List.mem_cons_self).2⟩
  intro hsame
  have hlines := congrArg (fun t : ParseTree => t.map fun f => f.data.map Datum.line) (hother.2 hsame)
  exact absurd hlines (by decide)

end Routine
