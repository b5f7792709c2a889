import Mathlib.Logic.Relation
import Routine.Proofs.LoopVariables

/-!
# Where declarations are placed

The plan sorts the data of a routine into blocks. Three walks go into it: over the statements, for the lines of loops
that introduce their targets and for the lines of nested blocks, and over the table, for the arguments of cursors. What
they collect is said here without walks. A statement is held by a block at some depth (`Block.Holds`), and the walks
over the block meet exactly these (`Block.mem_preorder_iff`).

The lines of nested blocks are sorted, so the first of them after a datum is the least (`find?_eq_some_iff_least`), and
the owner of a datum is the nearest block that begins after it (`Function.owner?_eq_some_iff`). The lists of the plan
are those of the owners, in the order of the table (`Plan.mem_ownedBy`, `Function.pairwise_ownedBy`).
-/

namespace Routine

open Relation (ReflTransGen)

/-! ## Statements inside others -/

/-- The second statement is in a body of the first. -/
def Stmt.Directly (outer s : Stmt) : Prop :=
  ∃ body ∈ outer.bodies, s ∈ body

/-- The statement is in the block at some depth: in its body or in the action of a handler, or inside a statement that
is. -/
def Block.Holds (b : Block) (s : Stmt) : Prop :=
  ∃ body ∈ b.bodies, ∃ outer ∈ body, ReflTransGen Stmt.Directly outer s

theorem Stmts.preorder_eq (ss : List Stmt) : Stmts.preorder ss = ss.flatMap Stmt.preorder := by
  induction ss with
  | nil => rw [Stmts.preorder, List.flatMap_nil]
  | cons s ss ih => rw [Stmts.preorder, ih, List.flatMap_cons]

theorem Arms.preorder_eq (as : List Arm) : Arms.preorder as = (as.map Arm.body).flatMap Stmts.preorder := by
  induction as with
  | nil => rw [Arms.preorder, List.map_nil, List.flatMap_nil]
  | cons a as ih =>
    obtain ⟨line, condition, body⟩ := a
    rw [Arms.preorder, ih, List.map_cons, List.flatMap_cons]

theorem Handlers.preorder_eq (hs : List Handler) :
    Handlers.preorder hs = (hs.map Handler.action).flatMap Stmts.preorder := by
  induction hs with
  | nil => rw [Handlers.preorder, List.map_nil, List.flatMap_nil]
  | cons h hs ih =>
    obtain ⟨line, conditions, action⟩ := h
    rw [Handlers.preorder, ih, List.map_cons, List.flatMap_cons]

/-- A walk over a block goes through its bodies. -/
theorem Block.preorder_eq (b : Block) : b.preorder = b.bodies.flatMap Stmts.preorder := by
  obtain ⟨line, label, body, handlers⟩ := b
  cases handlers with
  | none => simp [Block.preorder, Handlers.preorder?, Block.bodies]
  | some hs => simp [Block.preorder, Handlers.preorder?, Block.bodies, Handlers.preorder_eq]

/-- A walk over a statement starts at the statement and goes through its bodies. -/
theorem Stmt.preorder_eq (s : Stmt) : s.preorder = s :: s.bodies.flatMap Stmts.preorder := by
  cases s with
  | block b => rw [Stmt.preorder, Block.preorder_eq, Stmt.bodies]
  | simple line s => rw [Stmt.preorder, Stmt.bodies, List.flatMap_nil]
  | conditional line condition body arms otherwise =>
    simp [Stmt.preorder, Stmt.bodies, Arms.preorder_eq]
  | choice line operand number arms hasElse otherwise =>
    simp [Stmt.preorder, Stmt.bodies, Arms.preorder_eq]
  | loop line label head body => simp [Stmt.preorder, Stmt.bodies]

/-- A walk meets the statement it starts at, and what walks over the statements directly inside meet. -/
theorem Stmt.mem_preorder_iff_directly {outer s : Stmt} :
    s ∈ outer.preorder ↔ s = outer ∨ ∃ inner, outer.Directly inner ∧ s ∈ inner.preorder := by
  rw [Stmt.preorder_eq, List.mem_cons, List.mem_flatMap]
  simp only [Stmts.preorder_eq, List.mem_flatMap, Stmt.Directly]
  refine or_congr_right ⟨?_, ?_⟩
  · rintro ⟨body, hbody, inner, hinner, hs⟩
    exact ⟨inner, ⟨body, hbody, hinner⟩, hs⟩
  · rintro ⟨inner, ⟨body, hbody, hinner⟩, hs⟩
    exact ⟨body, hbody, inner, hinner, hs⟩

/-- A walk over a statement directly inside is a part of the walk. -/
theorem Stmt.length_preorder_lt {outer inner : Stmt} (h : outer.Directly inner) :
    inner.preorder.length < outer.preorder.length := by
  obtain ⟨body, hbody, hinner⟩ := h
  have hbodies : (Stmts.preorder body).Sublist (outer.bodies.flatMap Stmts.preorder) :=
    List.sublist_flatten_of_mem (List.mem_map_of_mem hbody)
  have hstmts : inner.preorder.Sublist (Stmts.preorder body) := by
    rw [Stmts.preorder_eq]
    exact List.sublist_flatten_of_mem (List.mem_map_of_mem hinner)
  rw [outer.preorder_eq, List.length_cons, Nat.lt_succ_iff]
  exact (hstmts.trans hbodies).length_le

theorem Stmt.mem_preorder_iff {outer s : Stmt} : s ∈ outer.preorder ↔ ReflTransGen Stmt.Directly outer s := by
  constructor
  · intro hs
    induction hlength : outer.preorder.length using Nat.strongRecOn generalizing outer with
    | ind length ih =>
      rcases Stmt.mem_preorder_iff_directly.1 hs with rfl | ⟨inner, hinner, hs⟩
      · exact .refl
      · exact .head hinner (ih _ (hlength ▸ Stmt.length_preorder_lt hinner) hs rfl)
  · intro h
    induction h using ReflTransGen.head_induction_on with
    | refl => exact Stmt.mem_preorder_iff_directly.2 (.inl rfl)
    | head hinner _ ih => exact Stmt.mem_preorder_iff_directly.2 (.inr ⟨_, hinner, ih⟩)

/-- A walk over a block meets the statements it holds, at any depth. -/
theorem Block.mem_preorder_iff {b : Block} {s : Stmt} : s ∈ b.preorder ↔ b.Holds s := by
  rw [Block.preorder_eq, List.mem_flatMap, Block.Holds]
  refine exists_congr fun body => and_congr_right fun _ => ?_
  rw [Stmts.preorder_eq, List.mem_flatMap]
  exact exists_congr fun outer => and_congr_right fun _ => Stmt.mem_preorder_iff

theorem Block.mem_blockLines {b : Block} {line : Int32} :
    line ∈ b.blockLines ↔ ∃ inner, b.Holds (.block inner) ∧ inner.line = line := by
  rw [blockLines, mem_ascending, List.mem_filterMap]
  constructor
  · rintro ⟨s, hs, hline⟩
    cases s with
    | block inner => exact ⟨inner, Block.mem_preorder_iff.1 hs, Option.some.inj hline⟩
    | simple | conditional | choice | loop => cases hline
  · rintro ⟨inner, hinner, rfl⟩
    exact ⟨.block inner, Block.mem_preorder_iff.2 hinner, rfl⟩

/-! ## What is declared -/

namespace Function

variable {f : Function} {i : Nat} {d : Datum}

/-- The datum in the place is an argument of a cursor: a member of the row that some variable of the table has for its
arguments. -/
def IsArgument (f : Function) (i : Nat) : Prop :=
  ∃ v number r, .scalar v ∈ f.data ∧ v.cursorArguments = some number ∧ f.datum? number = some (.row r) ∧
    ∃ m ∈ r.members, m.number.toInt = i

theorem mem_cursorArguments {number : Int32} :
    number ∈ f.cursorArguments d ↔ ∃ v row r, d = .scalar v ∧ v.cursorArguments = some row ∧
      f.datum? row = some (.row r) ∧ ∃ m ∈ r.members, m.number = number := by
  constructor
  · intro h
    unfold cursorArguments at h
    split at h
    · next v =>
      split at h
      · next r hrow =>
        obtain ⟨row, harguments, hdatum⟩ := Option.bind_eq_some_iff.1 hrow
        exact ⟨v, row, r, rfl, harguments, hdatum, List.mem_map.1 h⟩
      · cases h
    · cases h
  · rintro ⟨v, row, r, rfl, harguments, hdatum, hnumber⟩
    have hrow : v.cursorArguments.bind f.datum? = some (.row r) := Option.bind_eq_some_iff.2 ⟨row, harguments, hdatum⟩
    simp only [cursorArguments, hrow]
    exact List.mem_map.2 hnumber

theorem isCursorArgument_iff : f.isCursorArgument i = true ↔ f.IsArgument i := by
  have hplace : ∀ number : Int32, (0 ≤ number && number.toInt.toNat == i) = true ↔ number.toInt = i := by
    intro number
    simp only [Bool.and_eq_true, decide_eq_true_eq, beq_iff_eq, Int32.le_iff_toInt_le, Int32.toInt_zero]
    omega
  simp only [isCursorArgument, List.any_eq_true, hplace, mem_cursorArguments]
  constructor
  · rintro ⟨_, hd, _, ⟨v, row, r, rfl, harguments, hdatum, m, hm, rfl⟩, hnumber⟩
    exact ⟨v, row, r, hd, harguments, hdatum, m, hm, hnumber⟩
  · rintro ⟨v, row, r, hd, harguments, hdatum, m, hm, hnumber⟩
    exact ⟨_, hd, _, ⟨v, row, r, rfl, harguments, hdatum, m, hm, rfl⟩, hnumber⟩

/-- The datum in the place has a declaration of its own: a variable or a record with a line, with no internal name,
that no loop has introduced in its line and no cursor has as an argument. -/
structure IsDeclared (f : Function) (i : Nat) (d : Datum) : Prop where
  place : f.data[i]? = some d
  kind : isVariable d = true
  line : 0 < d.line
  name : ∀ name ∈ d.name?, isInternalName name = false
  loop : ∀ s, f.action.Holds s → ∀ target, s.Introduces target → target.line ≠ d.line
  argument : ¬ f.IsArgument i

theorem not_mem_loopLines_iff {line : Int32} :
    line ∉ f.action.loopLines ↔ ∀ s, f.action.Holds s → ∀ target, s.Introduces target → target.line ≠ line := by
  rw [Block.mem_loopLines]
  simp only [Block.mem_preorder_iff, not_exists, not_and]

theorem isDeclared_iff : f.IsDeclared i d ↔ f.data[i]? = some d ∧ f.isDeclarable i d = true := by
  have hname : (d.name?.map isInternalName).getD false = false ↔ ∀ name ∈ d.name?, isInternalName name = false := by
    cases d.name? <;> simp
  have hloop : f.action.loopLines.contains d.line = false ↔
      ∀ s, f.action.Holds s → ∀ target, s.Introduces target → target.line ≠ d.line := by
    rw [← not_mem_loopLines_iff, ← List.contains_iff_mem, Bool.not_eq_true]
  have hargument : f.isCursorArgument i = false ↔ ¬ f.IsArgument i := by
    rw [← isCursorArgument_iff, Bool.not_eq_true]
  simp only [isDeclarable, Bool.and_eq_true, decide_eq_true_eq, Bool.not_eq_true', hname, hloop, hargument, and_assoc]
  exact ⟨fun ⟨h₁, h₂, h₃, h₄, h₅, h₆⟩ => ⟨h₁, h₂, h₃, h₄, h₅, h₆⟩,
    fun ⟨h₁, h₂, h₃, h₄, h₅, h₆⟩ => ⟨h₁, h₂, h₃, h₄, h₅, h₆⟩⟩

end Function

/-! ## The nearest block -/

/-- The first line of ascending lines that has a property is the least. -/
theorem find?_eq_some_iff_least {p : Int32 → Bool} {ls : List Int32} (h : ls.Pairwise (· < ·)) {line : Int32} :
    ls.find? p = some line ↔ line ∈ ls ∧ p line = true ∧ ∀ l ∈ ls, p l = true → line ≤ l := by
  induction ls with
  | nil => simp
  | cons first ls ih =>
    obtain ⟨hfirst, hls⟩ := List.pairwise_cons.1 h
    cases hp : p first with
    | true =>
      rw [List.find?_cons_of_pos hp]
      constructor
      · rintro ⟨⟩
        refine ⟨List.mem_cons_self, hp, ?_⟩
        intro l hl _
        rcases List.mem_cons.1 hl with rfl | hl
        · exact Int32.le_refl _
        · exact Int32.le_of_lt (hfirst l hl)
      · rintro ⟨hline, _, hleast⟩
        rcases List.mem_cons.1 hline with rfl | hline
        · rfl
        · exact absurd (hleast first List.mem_cons_self hp) (Int32.not_le.2 (hfirst line hline))
    | false =>
      have hne : ∀ l, p l = true → l ≠ first := by
        rintro l hl rfl
        rw [hp] at hl
        cases hl
      rw [List.find?_cons_of_neg (by simp [hp]), ih hls]
      constructor
      · rintro ⟨hline, hpline, hleast⟩
        refine ⟨List.mem_cons_of_mem _ hline, hpline, ?_⟩
        intro l hl hpl
        exact hleast l (List.mem_of_ne_of_mem (hne l hpl) hl) hpl
      · rintro ⟨hline, hpline, hleast⟩
        exact ⟨List.mem_of_ne_of_mem (hne line hpline) hline, hpline,
          fun l hl => hleast l (List.mem_cons_of_mem _ hl)⟩

namespace Function

variable {f : Function} {i : Nat} {d : Datum}

/-- The line is that of the nested block a datum is declared in: the datum comes after the line of the outermost block,
and the line is the least after the datum that a block inside has. -/
structure IsOwner (f : Function) (d : Datum) (line : Int32) : Prop where
  inside : f.action.line < d.line
  block : ∃ b, f.action.Holds (.block b) ∧ b.line = line
  after : d.line < line
  least : ∀ b, f.action.Holds (.block b) → d.line < b.line → line ≤ b.line

/-- The owner of a datum is the nearest block that begins after it. -/
theorem owner?_eq_some_iff {line : Int32} : f.owner? d = some line ↔ f.IsOwner d line := by
  have hfind : f.action.blockLines.find? (d.line < ·) = some line ↔ line ∈ f.action.blockLines ∧ d.line < line ∧
      ∀ l ∈ f.action.blockLines, d.line < l → line ≤ l := by
    have hsorted : f.action.blockLines.Pairwise (· < ·) := pairwise_ascending _
    simp only [find?_eq_some_iff_least hsorted, decide_eq_true_eq]
  rw [owner?]
  constructor
  · intro h
    split at h
    · next hinside =>
      obtain ⟨hblock, hafter, hleast⟩ := hfind.1 h
      exact ⟨hinside, Block.mem_blockLines.1 hblock, hafter,
        fun b hb => hleast b.line (Block.mem_blockLines.2 ⟨b, hb, rfl⟩)⟩
    · cases h
  · intro h
    rw [if_pos h.inside, hfind]
    refine ⟨Block.mem_blockLines.2 h.block, h.after, ?_⟩
    intro l hl
    obtain ⟨b, hb, rfl⟩ := Block.mem_blockLines.1 hl
    exact h.least b hb

theorem owner?_eq_none_iff : f.owner? d = none ↔ ∀ line, ¬ f.IsOwner d line := by
  rw [Option.eq_none_iff_forall_ne_some]
  exact forall_congr' fun line => not_congr owner?_eq_some_iff

/-! ## The lists of the plan -/

theorem mem_ownedBy {owner : Option Int32} :
    i ∈ Plan.ownedBy owner f.declared ↔ ∃ d, f.IsDeclared i d ∧ f.owner? d = owner := by
  simp only [Plan.ownedBy, List.mem_map, List.mem_filter, mem_declared, beq_iff_eq, isDeclared_iff,
    List.mk_mem_zipIdx_iff_getElem?]
  constructor
  · rintro ⟨_, ⟨⟨d, hplace, hdeclarable, howner⟩, rfl⟩, rfl⟩
    exact ⟨d, ⟨hplace, hdeclarable⟩, howner⟩
  · rintro ⟨d, ⟨hplace, hdeclarable⟩, howner⟩
    exact ⟨(i, owner), ⟨⟨d, hplace, hdeclarable, howner⟩, rfl⟩, rfl⟩

theorem pairwise_ownedBy (f : Function) (owner : Option Int32) :
    (Plan.ownedBy owner f.declared).Pairwise (· < ·) :=
  f.pairwise_declared.sublist (List.filter_sublist.map Prod.fst)

theorem mem_nested {entry : Int32 × List Nat} : entry ∈ (Plan.ofFunction f).nested ↔
    entry.1 ∈ f.action.blockLines ∧ entry.2 = Plan.ownedBy (some entry.1) f.declared ∧ entry.2 ≠ [] := by
  obtain ⟨line, places⟩ := entry
  simp only [Plan.ofFunction, List.mem_filter, List.mem_map, Prod.mk.injEq, Bool.not_eq_true', List.isEmpty_eq_false_iff]
  constructor
  · rintro ⟨⟨_, hline, rfl, rfl⟩, hplaces⟩
    exact ⟨hline, rfl, hplaces⟩
  · rintro ⟨hline, rfl, hplaces⟩
    exact ⟨⟨line, hline, rfl, rfl⟩, hplaces⟩

theorem mem_topLevel_iff : i ∈ (Plan.ofFunction f).topLevel ↔ ∃ d, f.IsDeclared i d ∧ ∀ line, ¬ f.IsOwner d line := by
  simp only [← owner?_eq_none_iff]
  exact mem_ownedBy

theorem exists_mem_nested_iff {line : Int32} :
    (∃ places, (line, places) ∈ (Plan.ofFunction f).nested ∧ i ∈ places) ↔
      ∃ d, f.IsDeclared i d ∧ f.IsOwner d line := by
  simp only [← owner?_eq_some_iff, ← mem_ownedBy, mem_nested]
  constructor
  · rintro ⟨_, ⟨_, rfl, _⟩, hi⟩
    exact hi
  · intro hi
    obtain ⟨d, _, howner⟩ := mem_ownedBy.1 hi
    obtain ⟨_, hblock, _, _⟩ := owner?_eq_some_iff.1 howner
    exact ⟨_, ⟨Block.mem_blockLines.2 hblock, rfl, List.ne_nil_of_mem hi⟩, hi⟩

theorem mem_places_iff : i ∈ (Plan.ofFunction f).places ↔ ∃ d, f.IsDeclared i d := by
  simp only [isDeclared_iff]
  exact mem_places_iff_isDeclarable

end Function

/-- **Declarations stand in the nearest block.** The lists of a plan are ascending and have no place twice, in one list
or in two. They have the places of the data with declarations of their own. Such a datum is planned for a line if it
comes after the line of the outermost block and the line is the least of a block inside that begins after it; it is
planned for the outermost block if there is no such line. -/
theorem declarations_stand_in_the_nearest_block (f : Function) :
    (Plan.ofFunction f).places.Nodup ∧
      (Plan.ofFunction f).topLevel.Pairwise (· < ·) ∧
      (∀ entry ∈ (Plan.ofFunction f).nested, entry.2.Pairwise (· < ·)) ∧
      ((Plan.ofFunction f).nested.map Prod.fst).Pairwise (· < ·) ∧
      (∀ i, i ∈ (Plan.ofFunction f).places ↔ ∃ d, f.IsDeclared i d) ∧
      (∀ i line, (∃ places, (line, places) ∈ (Plan.ofFunction f).nested ∧ i ∈ places) ↔
        ∃ d, f.IsDeclared i d ∧ f.IsOwner d line) ∧
      (∀ i, i ∈ (Plan.ofFunction f).topLevel ↔ ∃ d, f.IsDeclared i d ∧ ∀ line, ¬ f.IsOwner d line) := by
  have hnested : ∀ entry ∈ (Plan.ofFunction f).nested, entry.2.Pairwise (· < ·) := by
    intro entry hentry
    obtain ⟨_, hplaces, _⟩ := Function.mem_nested.1 hentry
    exact hplaces ▸ f.pairwise_ownedBy (some entry.1)
  exact ⟨f.places_perm.nodup_iff.2 f.nodup_declared, f.pairwise_ownedBy none, hnested, f.pairwise_nested,
    fun _ => Function.mem_places_iff, fun _ _ => Function.exists_mem_nested_iff,
    fun _ => Function.mem_topLevel_iff⟩

end Routine
