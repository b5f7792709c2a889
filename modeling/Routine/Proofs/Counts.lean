import Routine.Proofs.Hydration
import Routine.Proofs.Outcome
import Routine.Proofs.Traversal

/-!
# The counts of hydration balance

Hydration counts on its way, each counter in the branches that concern it, and adds the counts of routines
field by field. What the counters mean can be said without any of this: compare the leaves of the tree
before and after. Such a pair is a `Fate`, and `HydrationStats.ofFates` counts fates. The counts of hydration
are the tally of the fates of its leaves (`slotStats_eq_ofFates`): one leaf is a case analysis, one case for
each way that hydration can go, and tallies of parts add up (`HydrationStats.ofFates_append`).

That the leaves are shared out among the counters is then a fact about fates: a leaf that holds SQL was
hydrated before, or it is hydrated now and has one of four kinds of content (`countP_isSql`).
-/

namespace Routine

open Sql (Backend)

/-! ## Fates -/

namespace Slot

/-- The leaf holds SQL. -/
def isSql : Slot → Bool
  | leaf _ => true
  | type _ => false

/-- The leaf is raw, and its text is to be read as an assignment. -/
def isRawAssignment : Slot → Bool
  | leaf (.raw _ mode) => mode ∈ [ParseMode.assign1, .assign2, .assign3]
  | _ => false

end Slot

/-- What a leaf was, and what it has become. -/
abbrev Fate := Slot × Slot

namespace Fate

/-- The leaf holds SQL and was hydrated before. -/
def wasHydrated : Fate → Bool
  | (.leaf l, _) => l.isHydrated
  | _ => false

/-- What a raw leaf that holds SQL has become. -/
def content? : Fate → Option Content
  | (.leaf (.raw _ _), .leaf (.hydrated _ _ content)) => some content
  | _ => none

/-- The leaf was raw and is a statement. -/
def becameStatement (x : Fate) : Bool :=
  match x.content? with
  | some (.statement _) => true
  | _ => false

/-- The leaf was raw and is an expression. -/
def becameExpression (x : Fate) : Bool :=
  match x.content? with
  | some (.expression _) => true
  | _ => false

/-- The leaf was raw and is an assignment. -/
def becameAssignment (x : Fate) : Bool :=
  match x.content? with
  | some (.assignment _ _ _ _) => true
  | _ => false

/-- The leaf was raw and is an assignment, and at least one of its sides has a tree. -/
def becameParsedAssignment (x : Fate) : Bool :=
  match x.content? with
  | some (.assignment _ _ targetTree valueTree) => targetTree.isSome || valueTree.isSome
  | _ => false

/-- The leaf was raw and is kept as text. -/
def becameText (x : Fate) : Bool :=
  match x.content? with
  | some .raw => true
  | _ => false

/-- The leaf is a type that was raw and has a tree. -/
def becameType : Fate → Bool
  | (.type (.raw _), .type (.hydrated _ _ _)) => true
  | _ => false

end Fate

open Fate

/-- The fates of the leaves of a tree, in order, if the second tree has leaves in the same places. -/
def ParseTree.fates (t t' : ParseTree) : List Fate :=
  List.zipWith (fun x x' => (x.2, x'.2)) t.slots t'.slots

theorem ParseTree.fates_mapSlots (m : Mapper) (t : ParseTree) :
    t.fates (t.mapSlots m) = t.slots.map fun x => (x.2, (m.slot x).2) := by
  rw [fates, slots_mapSlots, List.zipWith_map_right, List.zipWith_self]

namespace HydrationStats

/-- The counts that fates and a number of errors come to. -/
def ofFates (fates : List Fate) (errors : Nat) : HydrationStats where
  expressions := fates.countP fun x => x.1.isSql
  parsed := fates.countP becameStatement + fates.countP becameExpression + fates.countP becameParsedAssignment
  failed := errors
  assignments := fates.countP fun x => x.1.isRawAssignment
  sqlExpressions := fates.countP becameExpression
  sqlStatements := fates.countP becameStatement
  raw := fates.countP becameText
  typeNames := fates.countP becameType
  alreadyHydrated := fates.countP wasHydrated

/-- Tallies add up. -/
theorem ofFates_append (xs ys : List Fate) (m n : Nat) :
    ofFates (xs ++ ys) (m + n) = ofFates xs m + ofFates ys n := by
  have hparsed : (ofFates (xs ++ ys) (m + n)).parsed = (ofFates xs m).parsed + (ofFates ys n).parsed := by
    simp only [ofFates, List.countP_append]
    omega
  show ofFates (xs ++ ys) (m + n) = add (ofFates xs m) (ofFates ys n)
  simp only [add, ← hparsed]
  simp only [ofFates, List.countP_append]

end HydrationStats

open HydrationStats (ofFates)

/-! ## One leaf -/

section

variable {b : Backend} {o : HydrateOptions}

/-- The mode of a raw leaf matters for one counter only. -/
theorem ofFates_raw (text : String) (mode : ParseMode) (content : Content) (errors : Nat) :
    ofFates [(.leaf (.raw text mode), .leaf (.hydrated text mode content))] errors =
      { ofFates [(.leaf (.raw text .statement), .leaf (.hydrated text .statement content))] errors with
        assignments := if mode.isAssignment then 1 else 0 } := by
  have hmode : mode.isAssignment = decide (mode ∈ [ParseMode.assign1, .assign2, .assign3]) := by
    cases mode <;> simp [ParseMode.isAssignment]
  rw [hmode]
  simp only [ofFates, List.countP_singleton, Slot.isRawAssignment]
  rfl

theorem stats_hydrateStatement (path : Path) (text : String) :
    (hydrateStatement b path text .statement).stats =
      ofFates [(.leaf (.raw text .statement), .leaf (hydrateStatement b path text .statement).value)]
        (hydrateStatement b path text .statement).errors.length := by
  unfold hydrateStatement
  cases b.parseStatement text with
  | ok tree => rfl
  | error e => rfl

theorem stats_hydrateExpression (path : Path) (text : String) :
    (hydrateExpression b path text .expression).stats =
      ofFates [(.leaf (.raw text .expression), .leaf (hydrateExpression b path text .expression).value)]
        (hydrateExpression b path text .expression).errors.length := by
  unfold hydrateExpression
  cases b.parseExpression text with
  | ok tree => rfl
  | error e => rfl

/-- An assignment is counted as one whatever comes of it, and its sides show in what is parsed. -/
theorem stats_hydrateAssignment (path : Path) (text : String) {mode : ParseMode}
    (hmode : mode.isAssignment = true) :
    { (hydrateAssignment b path text mode).stats with assignments := 1 } =
      ofFates [(.leaf (.raw text mode), .leaf (hydrateAssignment b path text mode).value)]
        (hydrateAssignment b path text mode).errors.length := by
  unfold hydrateAssignment
  cases Assignment.parse text with
  | error fault =>
    dsimp only [refuseLeaf]
    rw [ofFates_raw, hmode]
    rfl
  | ok sides =>
    dsimp only
    rw [ofFates_raw, hmode]
    cases (parseSide b path text mode sides.target).1 with
    | some targetTree => rfl
    | none =>
      cases (parseSide b path text mode sides.value).1 with
      | some valueTree => rfl
      | none => rfl

theorem stats_hydrateLeaf (path : Path) (l : Leaf) :
    (hydrateLeaf b o path l).stats =
      ofFates [(.leaf l, .leaf (hydrateLeaf b o path l).value)] (hydrateLeaf b o path l).errors.length := by
  cases l with
  | hydrated captured mode content => rfl
  | raw text mode =>
    have hway := hydrateRaw_way (b := b) (o := o) path text mode
    rw [hydrateLeaf]
    generalize hydrateRaw b o path text mode = outcome at hway ⊢
    cases hway with
    | assignment hmode hon => exact stats_hydrateAssignment path text hmode
    | statement hmode hon =>
      subst hmode
      exact stats_hydrateStatement path text
    | expression hmode hon =>
      subst hmode
      exact stats_hydrateExpression path text
    | kept hassignment hexpression =>
      dsimp only [keepRaw]
      rw [ofFates_raw]
      rfl

theorem stats_hydrateType (path : Path) (t : TypeRef) :
    (hydrateType b o path t).stats =
      ofFates [(.type t, .type (hydrateType b o path t).value)] (hydrateType b o path t).errors.length := by
  cases t with
  | hydrated captured tree suffix => rfl
  | raw name =>
    simp only [hydrateType]
    split
    · rfl
    · split
      · rfl
      · rfl

/-- The fate of a leaf of either kind. -/
def fateOf (b : Backend) (o : HydrateOptions) (x : Placed) : Fate := (x.2, ((hydrator b o).slot x).2)

/-- **One leaf.** What is counted about a slot is the tally of its fate and its errors. -/
theorem slotOutcome_eq_ofFates (x : Placed) :
    (slotOutcome b o x).2 = ofFates [fateOf b o x] (slotOutcome b o x).1.length := by
  obtain ⟨path, s⟩ := x
  cases s with
  | leaf l => exact stats_hydrateLeaf path l
  | type t => exact stats_hydrateType path t

/-- **All leaves.** The counts of slots are the tally of their fates and errors. -/
theorem slotStats_eq_ofFates (xs : List Placed) :
    slotStats b o xs = ofFates (xs.map (fateOf b o)) (slotErrors b o xs).length := by
  induction xs with
  | nil => rfl
  | cons x xs ih =>
    rw [slotStats_cons, slotOutcome_eq_ofFates, ih, ← HydrationStats.ofFates_append, slotErrors_cons,
      List.length_append]
    rfl

/-! ## Shared out -/

/-- A leaf that holds SQL was hydrated before, or it is hydrated now. -/
def Fate.IsDecided (x : Fate) : Prop :=
  x.1.isSql = true → x.wasHydrated = true ∨ x.content?.isSome = true

theorem isDecided_fateOf (x : Placed) : (fateOf b o x).IsDecided := by
  obtain ⟨path, s⟩ := x
  cases s with
  | type t => exact Bool.noConfusion
  | leaf l =>
    intro _
    cases l with
    | hydrated captured mode content => exact .inl rfl
    | raw text mode =>
      obtain ⟨content, hvalue, -⟩ := hydrateLeaf_raw_fresh (b := b) (o := o) path text mode
      have hfate : fateOf b o (path, .leaf (.raw text mode)) =
          (.leaf (.raw text mode), .leaf (.hydrated text mode content)) :=
        congrArg (fun l => (Slot.leaf (.raw text mode), Slot.leaf l)) hvalue
      exact .inr (by rw [hfate]; rfl)

end

/-- Of the five things that can become of a leaf with SQL it is one. -/
theorem Fate.IsDecided.shared {x : Fate} (h : x.IsDecided) :
    [x].countP (fun x => x.1.isSql) =
      [x].countP wasHydrated + [x].countP becameStatement + [x].countP becameExpression +
        [x].countP becameText + [x].countP becameAssignment := by
  obtain ⟨s, s'⟩ := x
  cases s with
  | type t => rfl
  | leaf l =>
    cases l with
    | hydrated captured mode content => rfl
    | raw text mode =>
      cases s' with
      | type t => exact (h rfl).elim Bool.noConfusion Bool.noConfusion
      | leaf l' =>
        cases l' with
        | raw text' mode' => exact (h rfl).elim Bool.noConfusion Bool.noConfusion
        | hydrated captured mode' content => cases content <;> rfl

theorem countP_isSql {xs : List Fate} (h : ∀ x ∈ xs, x.IsDecided) :
    xs.countP (fun x => x.1.isSql) =
      xs.countP wasHydrated + xs.countP becameStatement + xs.countP becameExpression +
        xs.countP becameText + xs.countP becameAssignment := by
  induction xs with
  | nil => rfl
  | cons x xs ih =>
    have hx := (h x List.mem_cons_self).shared
    have hxs := ih fun y hy => h y (List.mem_cons_of_mem x hy)
    rw [← List.singleton_append]
    simp only [List.countP_append]
    omega

/-! ## Trees -/

/-- **The counts of hydration balance.** The leaves of the outcome stand in the places of those of the tree, so
each leaf has a fate, and the counts are the tally of the fates and the errors. In particular:

* all leaves that hold SQL are counted, and they are shared out among those hydrated before, statements,
  expressions, leaves kept as text and assignments;
* statements, expressions and the assignments with at least one parsed side have been parsed;
* the raw leaves of the three modes of assignments are counted whatever became of them, errors are counted one
  by one, and a type is counted if it was raw and has a tree. -/
theorem hydration_counts_balance {b : Backend} {o : HydrateOptions} {t : ParseTree} {r : Outcome ParseTree}
    (h : t.hydrate b o = .ok r) :
    r.value.slots.map Prod.fst = t.slots.map Prod.fst ∧
      r.stats = ofFates (t.fates r.value) r.errors.length ∧
      r.stats.expressions = t.slots.countP (fun x => x.2.isSql) ∧
      r.stats.expressions = r.stats.alreadyHydrated + r.stats.sqlStatements + r.stats.sqlExpressions +
        r.stats.raw + (t.fates r.value).countP becameAssignment ∧
      r.stats.parsed = r.stats.sqlStatements + r.stats.sqlExpressions +
        (t.fates r.value).countP becameParsedAssignment ∧
      r.stats.assignments = t.slots.countP (fun x => x.2.isRawAssignment) ∧
      r.stats.failed = r.errors.length ∧
      r.stats.typeNames = (t.fates r.value).countP becameType := by
  obtain ⟨-, rfl⟩ := ParseTree.hydrate_ok_inv h
  have hfates : t.fates (t.mapSlots (hydrator b o)) = t.slots.map (fateOf b o) :=
    ParseTree.fates_mapSlots _ t
  have hdecided : ∀ x ∈ t.slots.map (fateOf b o), x.IsDecided := by
    intro x hx
    obtain ⟨y, -, rfl⟩ := List.mem_map.1 hx
    exact isDecided_fateOf y
  have hpaths : (t.mapSlots (hydrator b o)).slots.map Prod.fst = t.slots.map Prod.fst := by
    rw [ParseTree.slots_mapSlots, List.map_map]
    exact List.map_congr_left fun x _ => Mapper.slot_fst _ x
  simp only [hfates, slotStats_eq_ofFates]
  refine ⟨hpaths, trivial, ?_, countP_isSql hdecided, rfl, ?_, rfl, rfl⟩
  · exact List.countP_map
  · exact List.countP_map

/-- Two types, one of which is refused where the marks are; a leaf hydrated before; an assignment with one
side that is refused, one that has no two sides, and one that nothing can be read of; and a statement, an
expression and a leaf of a mode that is not parsed. -/
def settlement : ParseTree :=
  [⟨[.scalar ⟨"total", 2, some (.raw "app.money"), false, false, some (.raw "0" .expression), none, none, 0⟩,
      .scalar ⟨"rest", 3, some (.raw "app.money!!"), false, false,
        some (.hydrated "total" .expression (.expression (.identifier (.plain "amount")))), none, none, 0⟩],
    ⟨4, none,
      [.simple 5 (.assign 0 (.raw "total!! := 1" .assign1)),
        .simple 6 (.assign 0 (.raw "a = b = c" .assign2)),
        .simple 7 (.perform (.raw "SELECT 1" .statement)),
        .simple 8 (.ret (some (.raw "money" .typeName)) none)], none⟩⟩] ++ halfReadable

theorem hydration_counts_balance_settlement :
    ∃ r : Outcome ParseTree, settlement.hydrate .echo {} = .ok r ∧ r.errors.length = 6 ∧
      r.stats.expressions = 9 ∧
      r.stats.expressions = r.stats.alreadyHydrated + r.stats.sqlStatements + r.stats.sqlExpressions +
        r.stats.raw + 2 ∧
      r.stats.parsed = r.stats.sqlStatements + r.stats.sqlExpressions + 1 ∧
      r.stats.assignments = 3 ∧ r.stats.failed = 6 ∧ r.stats.typeNames = 1 := by
  have hok := ParseTree.hydrate_ok (b := .echo) (o := {}) (t := settlement) (.inl rfl)
  obtain ⟨-, -, hleaves, hshared, hparsed, hassignments, hfailed, htypes⟩ := hydration_counts_balance hok
  have herrors : (slotErrors .echo {} settlement.slots).length = 6 := by decide +kernel
  have hbecame : (settlement.fates (settlement.mapSlots (hydrator .echo {}))).countP becameAssignment = 2 := by
    decide +kernel
  have hsides :
      (settlement.fates (settlement.mapSlots (hydrator .echo {}))).countP becameParsedAssignment = 1 := by
    decide +kernel
  rw [hbecame] at hshared
  rw [hsides] at hparsed
  exact ⟨_, hok, herrors, hleaves.trans (by decide), hshared, hparsed, hassignments.trans (by decide),
    hfailed.trans herrors, htypes.trans (by decide +kernel)⟩

end Routine
