import Routine.Proofs.Hydration
import Routine.Proofs.Outcome
import Routine.Proofs.Paths
import Routine.Proofs.Traversal
import Routine.Proofs.Untouched

/-!
# The errors of hydration are its account of what degraded

Hydration that goes on after errors always gives a tree, and a leaf that could not be parsed looks in it
like one that was never to be parsed. Only the list of errors tells the two apart. This module says that the
list can be relied on: a leaf is in it exactly if its text was to be parsed and could not be, and what a leaf
without an entry has become follows from its mode and the options alone.

`Slot.Settles` is the one account of a leaf: what it becomes, and how many entries it has. It is read off
hydration once (`settles_slotOutcome`); that a leaf has an entry iff it degrades and what it is without one
are inversions of it. From the leaf to the tree it takes that paths tell leaves apart, so that the entries of
a path are those of one leaf (`slotErrors_filter_path`).
-/

namespace Routine

open Sql (Backend BackendError Tree)

/-- Nothing came of reading a text. -/
def Fails {ε α : Type} (read : Except ε α) : Prop := ∃ e, read = .error e

@[simp]
theorem fails_error {ε α : Type} (e : ε) : Fails (.error e : Except ε α) := ⟨e, rfl⟩

@[simp]
theorem not_fails_ok {ε α : Type} (a : α) : ¬ Fails (.ok a : Except ε α) := by
  rintro ⟨e, he⟩
  cases he

namespace HydrateOptions

variable (o : HydrateOptions)

/-- Text of the mode is to be parsed. -/
def Reads (mode : ParseMode) : Prop :=
  (mode.isAssignment = true ∧ o.assignments = true) ∨
    ((mode = .statement ∨ mode = .expression) ∧ o.expressions = true)

/-- The type is to be parsed, with the base as its name. -/
def ReadsType (name base : String) (suffix : Option String) : Prop :=
  o.typeNames = true ∧ TypeName.parsable? name = some (base, suffix)

end HydrateOptions

/-- The text is no assignment whose sides can be parsed: it has no two sides, or one of them has no tree. -/
def AssignmentFails (b : Backend) (text : String) : Prop :=
  Fails (Assignment.parse text) ∨
    ∃ sides, Assignment.parse text = .ok sides ∧
      (Fails (b.parseExpression sides.target) ∨ Fails (b.parseExpression sides.value))

/-- The tree of a side of an assignment, or nothing if it has none. -/
def SideTree (b : Backend) (text : String) : Option Tree → Prop
  | some tree => b.parseExpression text = .ok tree
  | none => Fails (b.parseExpression text)

/-! ## Leaves -/

namespace Slot

/-- The text before hydration. -/
def captured : Slot → String
  | leaf l => l.captured
  | type t => t.captured

/-- How the text is to be read. -/
def readAs : Slot → ParseMode
  | leaf l => l.mode
  | type _ => .typeName

section

variable (b : Backend) (o : HydrateOptions)

/-- The leaf is to be parsed and cannot be. -/
def Degrades : Slot → Prop
  | leaf (.raw text mode) =>
    (mode.isAssignment = true ∧ o.assignments = true ∧ AssignmentFails b text) ∨
      (mode = .statement ∧ o.expressions = true ∧ Fails (b.parseStatement text)) ∨
      (mode = .expression ∧ o.expressions = true ∧ Fails (b.parseExpression text))
  | type (.raw name) => ∃ base suffix, o.ReadsType name base suffix ∧ Fails (b.parseType base)
  | _ => False

/-- The leaf is an assignment, and neither of its sides can be parsed. -/
def DegradesTwice : Slot → Prop
  | leaf (.raw text mode) =>
    mode.isAssignment = true ∧ o.assignments = true ∧
      ∃ sides, Assignment.parse text = .ok sides ∧
        Fails (b.parseExpression sides.target) ∧ Fails (b.parseExpression sides.value)
  | _ => False

/-- What a leaf is afterwards if nothing failed: everything that was to be parsed has its tree, and the rest
is as it was. A leaf that holds SQL is marked as hydrated either way, a type only if it has a tree. -/
inductive Succeeds : Slot → Slot → Prop
  | statement {text : String} {tree : Tree} (hon : o.expressions = true)
      (h : b.parseStatement text = .ok tree) :
      Succeeds (leaf (.raw text .statement)) (leaf (.hydrated text .statement (.statement tree)))
  | expression {text : String} {tree : Tree} (hon : o.expressions = true)
      (h : b.parseExpression text = .ok tree) :
      Succeeds (leaf (.raw text .expression)) (leaf (.hydrated text .expression (.expression tree)))
  | assignment {text : String} {mode : ParseMode} {sides : Assignment} {target value : Tree}
      (hmode : mode.isAssignment = true) (hon : o.assignments = true)
      (hsides : Assignment.parse text = .ok sides)
      (htarget : b.parseExpression sides.target = .ok target)
      (hvalue : b.parseExpression sides.value = .ok value) :
      Succeeds (leaf (.raw text mode))
        (leaf (.hydrated text mode (.assignment sides.target sides.value (some target) (some value))))
  | kept {text : String} {mode : ParseMode} (h : ¬ o.Reads mode) :
      Succeeds (leaf (.raw text mode)) (leaf (.hydrated text mode .raw))
  | type {name base : String} {suffix : Option String} {tree : Tree} (h : o.ReadsType name base suffix)
      (htree : b.parseType base = .ok tree) :
      Succeeds (type (.raw name)) (type (.hydrated name tree suffix))
  | typeKept {name : String} (h : ∀ base suffix, ¬ o.ReadsType name base suffix) :
      Succeeds (type (.raw name)) (type (.raw name))
  | hydrated {s : Slot} (h : ¬ s.IsRaw) : Succeeds s s

/-- What a leaf is afterwards if something failed: its text, but an assignment that has two sides keeps them
and the tree of the one that can be parsed. -/
inductive FallsBack : Slot → Slot → Prop
  | text {text : String} {mode : ParseMode} (h : mode.isAssignment = true → Fails (Assignment.parse text)) :
      FallsBack (leaf (.raw text mode)) (leaf (.hydrated text mode .raw))
  | sides {text : String} {mode : ParseMode} {sides : Assignment} {target value : Option Tree}
      (hmode : mode.isAssignment = true) (hsides : Assignment.parse text = .ok sides)
      (htarget : SideTree b sides.target target) (hvalue : SideTree b sides.value value) :
      FallsBack (leaf (.raw text mode))
        (leaf (.hydrated text mode (.assignment sides.target sides.value target value)))
  | type {name : String} : FallsBack (type (.raw name)) (type (.raw name))

/-- What a leaf is afterwards, and the number of its errors. -/
inductive Settles : Slot → Slot → Nat → Prop
  | clean {s s' : Slot} (hclean : ¬ s.Degrades b o) (h : Succeeds b o s s') : Settles s s' 0
  | once {s s' : Slot} (hfails : s.Degrades b o) (hside : ¬ s.DegradesTwice b o) (h : FallsBack b s s') :
      Settles s s' 1
  | twice {s s' : Slot} (hsides : s.DegradesTwice b o) (h : FallsBack b s s') : Settles s s' 2

end
end Slot

open Slot

variable {b : Backend} {o : HydrateOptions}

/-! ### Settled leaves -/

theorem degrades_assignment {text : String} {mode : ParseMode} (hmode : mode.isAssignment = true) :
    (leaf (.raw text mode)).Degrades b o ↔ o.assignments = true ∧ AssignmentFails b text := by
  constructor
  · rintro (⟨-, hon, hfails⟩ | ⟨rfl, -⟩ | ⟨rfl, -⟩)
    · exact ⟨hon, hfails⟩
    · cases hmode
    · cases hmode
  · rintro ⟨hon, hfails⟩
    exact .inl ⟨hmode, hon, hfails⟩

theorem not_degrades_of_not_reads {text : String} {mode : ParseMode} (h : ¬ o.Reads mode) :
    ¬ (leaf (.raw text mode)).Degrades b o := by
  rintro (⟨hmode, hon, -⟩ | ⟨rfl, hon, -⟩ | ⟨rfl, hon, -⟩)
  · exact h (.inl ⟨hmode, hon⟩)
  · exact h (.inr ⟨.inl rfl, hon⟩)
  · exact h (.inr ⟨.inr rfl, hon⟩)

theorem keepRaw_settles {text : String} {mode : ParseMode} (h : ¬ o.Reads mode) :
    Settles b o (leaf (.raw text mode)) (leaf (keepRaw text mode).value) (keepRaw text mode).errors.length :=
  .clean (not_degrades_of_not_reads h) (.kept h)

theorem hydrateStatement_settles (path : Path) (text : String) (hon : o.expressions = true) :
    Settles b o (leaf (.raw text .statement)) (leaf (hydrateStatement b path text .statement).value)
      (hydrateStatement b path text .statement).errors.length := by
  unfold hydrateStatement
  cases h : b.parseStatement text with
  | ok tree => exact .clean (by simp [Degrades, ParseMode.isAssignment, h]) (.statement hon h)
  | error e =>
    have hfails : (leaf (.raw text .statement)).Degrades b o := .inr (.inl ⟨rfl, hon, e, h⟩)
    exact .once hfails (fun htwice => Bool.noConfusion htwice.1) (.text Bool.noConfusion)

theorem hydrateExpression_settles (path : Path) (text : String) (hon : o.expressions = true) :
    Settles b o (leaf (.raw text .expression)) (leaf (hydrateExpression b path text .expression).value)
      (hydrateExpression b path text .expression).errors.length := by
  unfold hydrateExpression
  cases h : b.parseExpression text with
  | ok tree => exact .clean (by simp [Degrades, ParseMode.isAssignment, h]) (.expression hon h)
  | error e =>
    have hfails : (leaf (.raw text .expression)).Degrades b o := .inr (.inr ⟨rfl, hon, e, h⟩)
    exact .once hfails (fun htwice => Bool.noConfusion htwice.1) (.text Bool.noConfusion)

/-- A side has its tree and no error, or no tree and one error. -/
theorem parseSide_settles (path : Path) (text : String) (mode : ParseMode) (side : String) :
    SideTree b side (parseSide b path text mode side).1 ∧
      (parseSide b path text mode side).2.length =
        if (parseSide b path text mode side).1.isSome then 0 else 1 := by
  unfold parseSide
  cases h : b.parseExpression side with
  | ok tree => exact ⟨h, rfl⟩
  | error e => exact ⟨⟨e, h⟩, rfl⟩

theorem SideTree.fails_iff {text : String} {tree : Option Tree} (h : SideTree b text tree) :
    Fails (b.parseExpression text) ↔ tree = none := by
  cases tree with
  | none => exact iff_of_true h rfl
  | some tree =>
    have hparse : b.parseExpression text = .ok tree := h
    simp [hparse]

theorem hydrateAssignment_settles (path : Path) (text : String) {mode : ParseMode}
    (hmode : mode.isAssignment = true) (hon : o.assignments = true) :
    Settles b o (leaf (.raw text mode)) (leaf (hydrateAssignment b path text mode).value)
      (hydrateAssignment b path text mode).errors.length := by
  unfold hydrateAssignment
  cases hsides : Assignment.parse text with
  | error fault =>
    refine .once ((degrades_assignment hmode).2 ⟨hon, .inl ⟨fault, hsides⟩⟩) ?_
      (.text fun _ => ⟨fault, hsides⟩)
    rintro ⟨-, -, sides, hok, -⟩
    rw [hsides] at hok
    cases hok
  | ok sides =>
    obtain ⟨htarget, htargetCount⟩ := parseSide_settles (b := b) path text mode sides.target
    obtain ⟨hvalue, hvalueCount⟩ := parseSide_settles (b := b) path text mode sides.value
    simp only [List.length_append, htargetCount, hvalueCount]
    generalize (parseSide b path text mode sides.target).1 = target at *
    generalize (parseSide b path text mode sides.value).1 = value at *
    -- Both conditions on the text come down to which of the two trees are missing.
    have hfails : (leaf (.raw text mode)).Degrades b o ↔ target = none ∨ value = none := by
      simp [degrades_assignment hmode, AssignmentFails, hon, hsides, htarget.fails_iff, hvalue.fails_iff]
    have htwice : (leaf (.raw text mode)).DegradesTwice b o ↔ target = none ∧ value = none := by
      simp [DegradesTwice, hmode, hon, hsides, htarget.fails_iff, hvalue.fails_iff]
    have hfallback := FallsBack.sides hmode hsides htarget hvalue
    cases target with
    | none =>
      cases value with
      | none => exact .twice (htwice.2 ⟨rfl, rfl⟩) hfallback
      | some valueTree => exact .once (hfails.2 (.inl rfl)) (by simp [htwice]) hfallback
    | some targetTree =>
      cases value with
      | none => exact .once (hfails.2 (.inr rfl)) (by simp [htwice]) hfallback
      | some valueTree => exact .clean (by simp [hfails]) (.assignment hmode hon hsides htarget hvalue)

theorem hydrateLeaf_settles (path : Path) (l : Leaf) :
    Settles b o (leaf l) (leaf (hydrateLeaf b o path l).value) (hydrateLeaf b o path l).errors.length := by
  cases l with
  | hydrated captured mode content => exact .clean id (.hydrated Bool.noConfusion)
  | raw text mode =>
    have hway := hydrateRaw_way (b := b) (o := o) path text mode
    rw [hydrateLeaf]
    generalize hydrateRaw b o path text mode = outcome at hway ⊢
    cases hway with
    | assignment hmode hon => exact hydrateAssignment_settles path text hmode hon
    | statement hmode hon =>
      subst hmode
      exact hydrateStatement_settles path text hon
    | expression hmode hon =>
      subst hmode
      exact hydrateExpression_settles path text hon
    | kept hassignment hexpression =>
      refine keepRaw_settles ?_
      rintro (⟨hmode, hon⟩ | ⟨hmode, hon⟩)
      · exact absurd hon (by rw [hassignment hmode]; decide)
      · exact absurd hon (by rw [hexpression hmode]; decide)

theorem hydrateType_settles (path : Path) (t : TypeRef) :
    Settles b o (type t) (type (hydrateType b o path t).value) (hydrateType b o path t).errors.length := by
  cases t with
  | hydrated captured tree suffix => exact .clean id (.hydrated Bool.noConfusion)
  | raw name =>
    simp only [hydrateType]
    split
    · next hnone =>
      have hkept : ∀ base suffix, ¬ o.ReadsType name base suffix := by
        rintro base suffix ⟨hon, hbase⟩
        rw [if_pos hon, hbase] at hnone
        cases hnone
      refine .clean ?_ (.typeKept hkept)
      rintro ⟨base, suffix, h, -⟩
      exact hkept base suffix h
    · next base suffix hsome =>
      have hreads : o.ReadsType name base suffix := by
        split at hsome
        · next hon => exact ⟨hon, hsome⟩
        · cases hsome
      cases htree : b.parseType base with
      | ok tree =>
        refine .clean ?_ (.type hreads htree)
        rintro ⟨base', suffix', hreads', hfails⟩
        have hsame := hreads'.2.symm.trans hreads.2
        simp only [Option.some.injEq, Prod.mk.injEq] at hsame
        obtain ⟨rfl, rfl⟩ := hsame
        rw [htree] at hfails
        exact not_fails_ok tree hfails
      | error e => exact .once ⟨base, suffix, hreads, e, htree⟩ id .type

/-- **One leaf.** Hydration settles every slot. -/
theorem settles_slotOutcome (x : Placed) :
    Settles b o x.2 ((hydrator b o).slot x).2 (slotOutcome b o x).1.length := by
  obtain ⟨path, s⟩ := x
  cases s with
  | leaf l => exact hydrateLeaf_settles path l
  | type t => exact hydrateType_settles path t

/-- A leaf that degrades has something left to parse. -/
theorem Slot.Degrades.isRaw {s : Slot} (h : s.Degrades b o) : s.IsRaw := by
  cases s with
  | leaf l =>
    cases l with
    | raw text mode => exact rfl
    | hydrated captured mode content => exact h.elim
  | type t =>
    cases t with
    | raw name => exact rfl
    | hydrated captured tree suffix => exact h.elim

theorem Slot.DegradesTwice.degrades {s : Slot} (h : s.DegradesTwice b o) : s.Degrades b o := by
  cases s with
  | type t => exact h.elim
  | leaf l =>
    cases l with
    | hydrated captured mode content => exact h.elim
    | raw text mode =>
      obtain ⟨hmode, hon, sides, hsides, htarget, -⟩ := h
      exact .inl ⟨hmode, hon, .inr ⟨sides, hsides, .inl htarget⟩⟩

namespace Slot.Settles

variable {s s' : Slot} {n : Nat}

theorem le_two (h : Settles b o s s' n) : n ≤ 2 := by
  cases h <;> decide

theorem ne_zero_iff (h : Settles b o s s' n) : n ≠ 0 ↔ s.Degrades b o := by
  cases h with
  | clean hclean _ => simp [hclean]
  | once hfails _ _ => simp [hfails]
  | twice hsides _ => simp [hsides.degrades]

theorem eq_two_iff (h : Settles b o s s' n) : n = 2 ↔ s.DegradesTwice b o := by
  cases h with
  | clean hclean _ => exact iff_of_false (by decide) fun htwice => hclean htwice.degrades
  | once _ hside _ => exact iff_of_false (by decide) hside
  | twice hsides _ => exact iff_of_true rfl hsides

theorem succeeds (h : Settles b o s s' n) (hn : n = 0) : Succeeds b o s s' := by
  cases h with
  | clean _ h => exact h
  | once _ _ _ => cases hn
  | twice _ _ => cases hn

theorem fallsBack (h : Settles b o s s' n) (hn : n ≠ 0) : FallsBack b s s' := by
  cases h with
  | clean _ _ => exact absurd rfl hn
  | once _ _ h => exact h
  | twice _ h => exact h

end Slot.Settles

/-! ## Trees -/

/-- The errors that a path is given with. -/
def Outcome.errorsAt {α : Type} (r : Outcome α) (path : Path) : List HydrationError :=
  r.errors.filter fun e => e.path.render = path.render

/-- What is reported about a slot is about it. -/
theorem about_of_mem_slotOutcome {x : Placed} {e : HydrationError} (he : e ∈ (slotOutcome b o x).1) :
    e.captured = x.2.captured ∧ e.mode = x.2.readAs := by
  obtain ⟨path, s⟩ := x
  cases s with
  | leaf l =>
    obtain ⟨-, hcaptured, hmode, -⟩ := (hydrateLeaf_ofSql path l).reported e he
    exact ⟨hcaptured, hmode⟩
  | type t =>
    obtain ⟨-, hcaptured, hmode, -⟩ := (hydrateType_ofType path t).reported e he
    exact ⟨hcaptured, hmode⟩

/-- The errors of a path are those of the one slot that stands there. -/
theorem slotErrors_filter_path {xs : List Placed} (hdistinct : (xs.map fun x => x.1.render).Nodup)
    {x : Placed} (hx : x ∈ xs) :
    (slotErrors b o xs).filter (fun e => e.path.render = x.1.render) = (slotOutcome b o x).1 := by
  have hpath : ∀ y, ∀ e ∈ (slotOutcome b o y).1, e.path.render = y.1.render := by
    intro y e he
    rw [path_of_mem_slotOutcome he]
  -- The other slots contribute nothing, before and after the slot.
  have hothers : ∀ ys : List Placed, x.1.render ∉ ys.map (fun y => y.1.render) →
      (slotErrors b o ys).filter (fun e => e.path.render = x.1.render) = [] := by
    intro ys hys
    rw [List.filter_eq_nil_iff]
    intro e he
    obtain ⟨y, hy, he⟩ := List.mem_flatMap.1 he
    intro hsame
    rw [decide_eq_true_eq, hpath y e he] at hsame
    exact hys (List.mem_map.2 ⟨y, hy, hsame⟩)
  obtain ⟨ys, zs, rfl⟩ := List.append_of_mem hx
  rw [List.map_append, List.map_cons, List.nodup_middle, List.nodup_cons, List.mem_append, not_or] at hdistinct
  obtain ⟨⟨hys, hzs⟩, -⟩ := hdistinct
  have hown : (slotOutcome b o x).1.filter (fun e => e.path.render = x.1.render) = (slotOutcome b o x).1 := by
    rw [List.filter_eq_self]
    intro e he
    rw [decide_eq_true_eq]
    exact hpath x e he
  rw [slotErrors_append, slotErrors_cons, List.filter_append, List.filter_append, hothers ys hys, hothers zs hzs,
    hown, List.append_nil, List.nil_append]

/-- The paths of a tree read differently. -/
theorem ParseTree.nodup_renders (t : ParseTree) : (t.slots.map fun x => x.1.render).Nodup := by
  refine List.Nodup.map_on ?_ (List.Nodup.of_map Prod.fst t.slots_spread.distinct)
  intro x hx y hy h
  exact ParseTree.eq_of_render_eq hx hy h

/-- **The errors of hydration are an exact account.** Hydration that goes on after errors gives a result, and

* every error is about a raw leaf or type with its path, its text and its mode, and no other leaf of the tree
  has this path; the errors come in the order of the leaves;
* a leaf has an error iff it was to be parsed and could not be, at most two, and two iff it is an assignment of
  which neither side could be parsed;
* a leaf without an error has all the trees it was to have and has else kept its text, and a leaf with one
  has fallen back to its text. -/
theorem errors_are_the_degraded_leaves (b : Backend) (o : HydrateOptions) (t : ParseTree)
    (hcontinues : o.continueOnError = true) :
    ∃ r : Outcome ParseTree, t.hydrate b o = .ok r ∧
      (∀ e ∈ r.errors, ∃ x ∈ t.slots, x.2.IsRaw ∧ e.path = x.1 ∧ e.captured = x.2.captured ∧
        e.mode = x.2.readAs ∧ ∀ y ∈ t.slots, y.1.render = e.path.render → y = x) ∧
      r.errors = t.slots.flatMap (fun x => r.errorsAt x.1) ∧
      r.value.slots.map Prod.fst = t.slots.map Prod.fst ∧
      ∀ x ∈ t.slots,
        (r.errorsAt x.1 ≠ [] ↔ x.2.Degrades b o) ∧
        (r.errorsAt x.1).length ≤ 2 ∧
        ((r.errorsAt x.1).length = 2 ↔ x.2.DegradesTwice b o) ∧
        ∃ s, (x.1, s) ∈ r.value.slots ∧
          (r.errorsAt x.1 = [] → Succeeds b o x.2 s) ∧
          (r.errorsAt x.1 ≠ [] → FallsBack b x.2 s) := by
  refine ⟨_, ParseTree.hydrate_ok (.inl hcontinues), ?_, ?_, ?_, ?_⟩
  · intro e he
    obtain ⟨x, hx, he⟩ := List.mem_flatMap.1 he
    obtain ⟨hcaptured, hmode⟩ := about_of_mem_slotOutcome he
    have hdegrades : x.2.Degrades b o :=
      (settles_slotOutcome x).ne_zero_iff.1 (Nat.ne_of_gt (List.length_pos_of_mem he))
    have hpath : e.path = x.1 := path_of_mem_slotOutcome he
    refine ⟨x, hx, hdegrades.isRaw, hpath, hcaptured, hmode, ?_⟩
    intro y hy hsame
    rw [hpath] at hsame
    exact ParseTree.eq_of_render_eq hy hx hsame
  · refine List.flatMap_congr ?_
    intro x hx
    exact (slotErrors_filter_path t.nodup_renders hx).symm
  · rw [ParseTree.slots_mapSlots, List.map_map]
    exact List.map_congr_left fun x _ => Mapper.slot_fst _ x
  · intro x hx
    have hat := slotErrors_filter_path (b := b) (o := o) t.nodup_renders hx
    have hsettles := settles_slotOutcome (b := b) (o := o) x
    rw [← hat] at hsettles
    have hmem : (x.1, ((hydrator b o).slot x).2) ∈ (t.mapSlots (hydrator b o)).slots := by
      rw [ParseTree.slots_mapSlots, ← Mapper.slot_fst (hydrator b o) x]
      exact List.mem_map_of_mem hx
    refine ⟨?_, hsettles.le_two, hsettles.eq_two_iff, _, hmem, ?_, ?_⟩
    · rw [← hsettles.ne_zero_iff, ne_eq, ne_eq, List.length_eq_zero_iff]
      rfl
    · intro hnone
      exact hsettles.succeeds (List.length_eq_zero_iff.2 hnone)
    · intro hsome
      exact hsettles.fallsBack (mt List.length_eq_zero_iff.1 hsome)

/-- The path of the one leaf of the first routine. -/
def halfReadableResult : Path :=
  [.item "functions" 0, .member "action", .item "body" 0, .member "expr"]

theorem errors_are_the_degraded_leaves_halfReadable :
    ({} : HydrateOptions).continueOnError = true ∧
      ∃ r : Outcome ParseTree, halfReadable.hydrate .echo {} = .ok r ∧
        (r.errorsAt halfReadableAssignment).length = 2 ∧
        r.errorsAt halfReadableResult = [] ∧
        ∃ s, (halfReadableResult, s) ∈ r.value.slots ∧
          Succeeds .echo {} (.leaf (.raw "total" .expression)) s := by
  obtain ⟨r, hr, -, -, -, hleaves⟩ := errors_are_the_degraded_leaves .echo {} halfReadable rfl
  have hassignment := hleaves (halfReadableAssignment, .leaf (.raw "x!! := y!!" .assign1)) (.tail _ (.head _))
  have hresult := hleaves (halfReadableResult, .leaf (.raw "total" .expression)) (.head _)
  have htwice : (Slot.leaf (.raw "x!! := y!!" .assign1)).DegradesTwice .echo {} :=
    ⟨rfl, rfl, ⟨"x!!", "y!!"⟩, by decide +kernel, ⟨_, rfl⟩, ⟨_, rfl⟩⟩
  have hclean : ¬ (Slot.leaf (.raw "total" .expression)).Degrades .echo {} := by
    rintro (⟨h, -⟩ | ⟨h, -⟩ | ⟨-, -, e, he⟩)
    · cases h
    · cases h
    · cases he
  obtain ⟨hiff, -, -, s, hs, hsucceeds, -⟩ := hresult
  have hnone : r.errorsAt halfReadableResult = [] := by
    by_contra h
    exact hclean (hiff.1 h)
  exact ⟨rfl, r, hr, hassignment.2.2.1.2 htwice, hnone, s, hs, hsucceeds hnone⟩

end Routine
