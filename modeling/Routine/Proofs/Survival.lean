import Routine.Proofs.Hydration
import Routine.Proofs.Outcome
import Routine.Proofs.Paths
import Routine.Proofs.Traversal

/-!
# Edits survive a trip through text

A hydrated tree is edited, dehydrated, and hydrated again. Dehydration has two ways to the text of a leaf:
the captured text, if a fresh parse of it is the tree of the leaf, and else what the backend writes for the
tree. Either way the text is read as the tree again (`isUnedited_text`), if only the backend reads back what
it writes, so the choice between the two cannot lose an edit.

Nothing is asked of the other leaves. They may be reported, but at other paths: paths tell leaves apart
(`ParseTree.eq_of_render_eq`).
-/

namespace Routine

open Sql (Backend BackendError Tree)

variable {b : Backend}

/-! ## Text of a tree -/

/-- What is written for the tree is read as the tree again, up to places. -/
def ReadsBack (render : Tree → Except BackendError String) (parse : String → Except BackendError Tree)
    (tree : Tree) : Prop :=
  ∃ text, render tree = .ok text ∧ isUnedited (parse text) tree = true

theorem isUnedited_iff {parsed : Except BackendError Tree} {tree : Tree} :
    isUnedited parsed tree = true ↔ ∃ read, parsed = .ok read ∧ read.same tree = true := by
  constructor
  · intro h
    cases parsed with
    | ok read => exact ⟨read, rfl, h⟩
    | error e => cases h
  · rintro ⟨read, rfl, hsame⟩
    exact hsame

/-- The text that dehydration chooses is read as the tree. -/
theorem isUnedited_text {render : Tree → Except BackendError String}
    {parse : String → Except BackendError Tree} {tree : Tree} (h : ReadsBack render parse tree)
    (captured : String) :
    isUnedited (parse (if isUnedited (parse captured) tree then captured
      else renderedOr (render tree) captured)) tree = true := by
  split
  · next hunedited => exact hunedited
  · obtain ⟨text, hrender, hread⟩ := h
    rw [hrender]
    exact hread

/-! ## One leaf -/

namespace Slot

/-- The slot holds the tree of a statement or of an expression. -/
def HoldsSql : Slot → Prop
  | leaf (.hydrated _ _ (.statement _)) => True
  | leaf (.hydrated _ _ (.expression _)) => True
  | _ => False

/-- Statements are in the mode of statements, and expressions in that of expressions. -/
def ModeFits : Slot → Prop
  | leaf (.hydrated _ mode (.statement _)) => mode = .statement
  | leaf (.hydrated _ mode (.expression _)) => mode = .expression
  | _ => True

/-- The backend reads back what it writes for the tree of the slot. -/
def ReadsBack (b : Backend) : Slot → Prop
  | leaf (.hydrated _ _ (.statement tree)) => Routine.ReadsBack b.renderStatement b.parseStatement tree
  | leaf (.hydrated _ _ (.expression tree)) => Routine.ReadsBack b.renderExpression b.parseExpression tree
  | _ => True

/-- Both slots hold a statement or both hold an expression, in one mode, with trees that are equal up to
places. The texts may differ. -/
inductive SameSql : Slot → Slot → Prop
  | statement (old new : String) (mode : ParseMode) {tree read : Tree} (h : read.same tree = true) :
      SameSql (.leaf (.hydrated old mode (.statement tree))) (.leaf (.hydrated new mode (.statement read)))
  | expression (old new : String) (mode : ParseMode) {tree read : Tree} (h : read.same tree = true) :
      SameSql (.leaf (.hydrated old mode (.expression tree))) (.leaf (.hydrated new mode (.expression read)))

end Slot

/-- A statement comes back from the trip with its tree. -/
theorem hydrateLeaf_dehydrate_statement (path : Path) (captured : String) {tree : Tree}
    (h : ReadsBack b.renderStatement b.parseStatement tree) :
    ∃ text read stats, read.same tree = true ∧
      hydrateLeaf b {} path ((Leaf.hydrated captured .statement (.statement tree)).dehydrate b) =
        ⟨.hydrated text .statement (.statement read), [], stats⟩ := by
  obtain ⟨read, hparse, hsame⟩ := isUnedited_iff.1 (isUnedited_text h captured)
  refine ⟨statementText b captured tree, read, { expressions := 1, parsed := 1, sqlStatements := 1 },
    hsame, ?_⟩
  show hydrateStatement b path (statementText b captured tree) .statement = _
  rw [hydrateStatement, statementText, hparse]

/-- An expression comes back from the trip with its tree. -/
theorem hydrateLeaf_dehydrate_expression (path : Path) (captured : String) {tree : Tree}
    (h : ReadsBack b.renderExpression b.parseExpression tree) :
    ∃ text read stats, read.same tree = true ∧
      hydrateLeaf b {} path ((Leaf.hydrated captured .expression (.expression tree)).dehydrate b) =
        ⟨.hydrated text .expression (.expression read), [], stats⟩ := by
  obtain ⟨read, hparse, hsame⟩ := isUnedited_iff.1 (isUnedited_text h captured)
  refine ⟨expressionText b captured tree, read, { expressions := 1, parsed := 1, sqlExpressions := 1 },
    hsame, ?_⟩
  show hydrateExpression b path (expressionText b captured tree) .expression = _
  rw [hydrateExpression, expressionText, hparse]

/-- The slot holds the same SQL after the trip, and nothing is reported about it. -/
theorem sameSql_of_trip {x : Placed} (hsql : x.2.HoldsSql) (hmode : x.2.ModeFits) (hreads : x.2.ReadsBack b) :
    x.2.SameSql ((hydrator b {}).slot ((dehydrator b).slot x)).2 ∧
      (slotOutcome b {} ((dehydrator b).slot x)).1 = [] := by
  obtain ⟨path, s⟩ := x
  cases s with
  | type t => cases hsql
  | leaf l =>
    -- What is said of the slot is said of the outcome of its leaf.
    suffices h : ∃ l' stats, hydrateLeaf b {} path (l.dehydrate b) = ⟨l', [], stats⟩ ∧
        (Slot.leaf l).SameSql (.leaf l') by
      obtain ⟨l', stats, houtcome, hsame⟩ := h
      constructor
      · show (Slot.leaf l).SameSql (.leaf (hydrateLeaf b {} path (l.dehydrate b)).value)
        rw [houtcome]
        exact hsame
      · show (hydrateLeaf b {} path (l.dehydrate b)).errors = []
        rw [houtcome]
    cases l with
    | raw text mode => cases hsql
    | hydrated captured mode content =>
      cases content with
      | raw => cases hsql
      | assignment target value targetTree valueTree => cases hsql
      | statement tree =>
        obtain rfl : mode = .statement := hmode
        obtain ⟨text, read, stats, hsame, houtcome⟩ := hydrateLeaf_dehydrate_statement path captured hreads
        exact ⟨_, stats, houtcome, .statement captured text .statement hsame⟩
      | expression tree =>
        obtain rfl : mode = .expression := hmode
        obtain ⟨text, read, stats, hsame, houtcome⟩ := hydrateLeaf_dehydrate_expression path captured hreads
        exact ⟨_, stats, houtcome, .expression captured text .expression hsame⟩

/-! ## Trees -/

/-- **Edits survive a trip through text.** Let statements and expressions be in their modes, with any trees
that the backend reads back from what it writes for them. Then dehydrating the tree and hydrating it again
ends well; under the path of every statement and expression the same tree is found up to places, and
nothing is reported there. -/
theorem edits_survive_a_trip_through_text {t : ParseTree} (hmode : ∀ x ∈ t.slots, x.2.ModeFits)
    (hreads : ∀ x ∈ t.slots, x.2.ReadsBack b) :
    ∃ r : Outcome ParseTree, (t.dehydrate b).hydrate b {} = .ok r ∧
      ∀ x ∈ t.slots, x.2.HoldsSql →
        (∃ s, r.value.slot? x.1.render = some s ∧ x.2.SameSql s) ∧
          ∀ e ∈ r.errors, e.path.render ≠ x.1.render := by
  refine ⟨_, ParseTree.hydrate_ok (.inl rfl), ?_⟩
  intro x hx hsql
  obtain ⟨hsame, hnone⟩ := sameSql_of_trip hsql (hmode x hx) (hreads x hx)
  have hslots : (t.dehydrate b).slots = t.slots.map (dehydrator b).slot := ParseTree.slots_mapSlots _ t
  constructor
  · have hmem : (hydrator b {}).slot ((dehydrator b).slot x) ∈
        ((t.dehydrate b).mapSlots (hydrator b {})).slots := by
      rw [ParseTree.slots_mapSlots, hslots]
      exact List.mem_map_of_mem (List.mem_map_of_mem hx)
    have hfound := ParseTree.slot?_of_mem hmem
    rw [Mapper.slot_fst, Mapper.slot_fst] at hfound
    exact ⟨_, hfound, hsame⟩
  · intro e he hpath
    -- What is reported at the path is reported about the slot, and nothing is.
    obtain ⟨y, hy, hey⟩ := List.mem_flatMap.1 he
    rw [hslots] at hy
    obtain ⟨z, hz, rfl⟩ := List.mem_map.1 hy
    rw [path_of_mem_slotOutcome hey, Mapper.slot_fst] at hpath
    obtain rfl : z = x := ParseTree.eq_of_render_eq hz hx hpath
    rw [hnone] at hey
    cases hey

/-! ### A statement and an expression that are edited -/

/-- A savepoint that was given another name, a statement that does not parse, and a result that was a name
and is a sum. -/
def movedSavepoint : ParseTree :=
  [⟨[],
    ⟨3, none,
      [.simple 4 (.perform
          (.hydrated "SAVEPOINT before" .statement (.statement (.savepoint (.plain "after"))))),
        .simple 5 (.perform (.hydrated "SELECT FROM (" .statement .raw)),
        .simple 6 (.ret
          (some (.hydrated "total" .expression
            (.expression (.binary "+" (.identifier (.plain "total")) (.identifier (.plain "tax")))))) none)],
      none⟩⟩]

theorem edits_survive_a_trip_through_text_movedSavepoint :
    ∃ r : Outcome ParseTree, (movedSavepoint.dehydrate .postgres).hydrate .postgres {} = .ok r ∧
      ∀ x ∈ movedSavepoint.slots, x.2.HoldsSql →
        (∃ s, r.value.slot? x.1.render = some s ∧ x.2.SameSql s) ∧
          ∀ e ∈ r.errors, e.path.render ≠ x.1.render := by
  have hslots (p : Slot → Prop) (hp : ∀ y ∈ movedSavepoint.slots.map Prod.snd, p y) :
      ∀ x ∈ movedSavepoint.slots, p x.2 := fun x hx => hp x.2 (List.mem_map_of_mem hx)
  apply edits_survive_a_trip_through_text
  · apply hslots
    exact List.forall_mem_cons.2 ⟨rfl, List.forall_mem_cons.2 ⟨trivial, List.forall_mem_singleton.2 rfl⟩⟩
  · apply hslots
    refine List.forall_mem_cons.2 ⟨⟨_, rfl, ?_⟩,
      List.forall_mem_cons.2 ⟨trivial, List.forall_mem_singleton.2 ⟨_, rfl, ?_⟩⟩⟩
    · decide +kernel
    · decide +kernel

end Routine
