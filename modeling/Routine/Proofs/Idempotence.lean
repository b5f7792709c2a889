import Routine.Proofs.Hydration
import Routine.Proofs.Outcome
import Routine.Proofs.Traversal

/-!
# Hydrating twice

Hydrating what is hydrated changes nothing, but it does not go unnoticed. A leaf that holds SQL has been
hydrated once and for all, also when it did not parse, and is counted as such. A type that did not parse
has stayed raw, so it is tried again and fails again.

What the second time makes of a slot is said once (`hydrator_slot_again`, `slotOutcome_again`), and sums
over the slots of a tree follow by induction on the list (`slotErrors_again`, `slotStats_again`).
-/

namespace Routine

open Sql (Backend Tree)

variable {b : Backend} {o : HydrateOptions}

/-! ## The second time -/

/-- Whatever a leaf was, it is hydrated afterwards. -/
theorem exists_hydrated_of_hydrateLeaf (path : Path) (l : Leaf) :
    ∃ captured mode content, (hydrateLeaf b o path l).value = .hydrated captured mode content := by
  cases l with
  | hydrated captured mode content => exact ⟨captured, mode, content, rfl⟩
  | raw text mode =>
    obtain ⟨content, hvalue, -⟩ := hydrateLeaf_raw_fresh (b := b) (o := o) path text mode
    exact ⟨text, mode, content, hvalue⟩

/-- The error is about a type. -/
def HydrationError.isType (e : HydrationError) : Bool := e.fault = .typeName

/-- The counts of leaves that are hydrated already, and of errors. -/
def HydrationStats.again (leaves errors : Nat) : HydrationStats :=
  { expressions := leaves, alreadyHydrated := leaves, failed := errors }

theorem HydrationStats.again_add (m n m' n' : Nat) : again m n + again m' n' = again (m + m') (n + n') := rfl

theorem hydrateLeaf_again (path : Path) (l : Leaf) :
    hydrateLeaf b o path (hydrateLeaf b o path l).value =
      ⟨(hydrateLeaf b o path l).value, [], .again 1 0⟩ := by
  obtain ⟨captured, mode, content, hvalue⟩ := exists_hydrated_of_hydrateLeaf (b := b) (o := o) path l
  rw [hvalue]
  rfl

/-- A type that was parsed is left alone; one that was not comes to what it came to before. -/
theorem hydrateType_again (path : Path) (t : TypeRef) :
    hydrateType b o path (hydrateType b o path t).value =
      ⟨(hydrateType b o path t).value, (hydrateType b o path t).errors,
        .again 0 (hydrateType b o path t).errors.length⟩ := by
  cases t with
  | hydrated captured tree suffix => rfl
  | raw name =>
    cases hbase : (if o.typeNames then TypeName.parsable? name else none) with
    | none =>
      have houtcome : hydrateType b o path (.raw name) = ⟨.raw name, [], {}⟩ := by
        simp only [hydrateType, hbase]
      rw [houtcome]
      exact houtcome
    | some base =>
      obtain ⟨base, suffix⟩ := base
      cases hparse : b.parseType base with
      | ok tree =>
        have houtcome : hydrateType b o path (.raw name) =
            ⟨.hydrated name tree suffix, [], { typeNames := 1 }⟩ := by
          simp only [hydrateType, hbase, hparse]
        rw [houtcome]
        rfl
      | error fault =>
        -- The name stays as it is, so that it is refused again, for the same reason.
        have houtcome : hydrateType b o path (.raw name) =
            ⟨.raw name, [⟨path, name, .typeName, .typeName, fault.message⟩], { failed := 1 }⟩ := by
          simp only [hydrateType, hbase, hparse]
        rw [houtcome]
        exact houtcome

theorem hydrator_slot_again (x : Placed) :
    (hydrator b o).slot ((hydrator b o).slot x) = (hydrator b o).slot x := by
  obtain ⟨path, s⟩ := x
  cases s with
  | leaf l => exact congrArg (fun r => (path, Slot.leaf r.value)) (hydrateLeaf_again (o := o) path l)
  | type t => exact congrArg (fun r => (path, Slot.type r.value)) (hydrateType_again (o := o) path t)

/-- The second time the errors of a slot are those of the first time that are about types, and the slot is
counted as hydrated already if it holds SQL. -/
theorem slotOutcome_again (x : Placed) :
    slotOutcome b o ((hydrator b o).slot x) =
      ((slotOutcome b o x).1.filter HydrationError.isType,
        .again (slotOutcome b o x).2.expressions
          ((slotOutcome b o x).1.filter HydrationError.isType).length) := by
  obtain ⟨path, s⟩ := x
  cases s with
  | leaf l =>
    have hsql := hydrateLeaf_ofSql (b := b) (o := o) path l
    have hnone : (hydrateLeaf b o path l).errors.filter HydrationError.isType = [] := by
      rw [List.filter_eq_nil_iff]
      intro e he
      simpa [HydrationError.isType] using (hsql.reported e he).2.2.2
    simp only [slotOutcome, Mapper.slot, hydrator, hydrateLeaf_again, hnone, hsql.counted,
      List.length_nil]
  | type t =>
    have htype := hydrateType_ofType (b := b) (o := o) path t
    have hall : (hydrateType b o path t).errors.filter HydrationError.isType =
        (hydrateType b o path t).errors := by
      rw [List.filter_eq_self]
      intro e he
      simpa [HydrationError.isType] using (htype.reported e he).2.2.2
    simp only [slotOutcome, Mapper.slot, hydrator, hydrateType_again, hall, htype.uncounted]

theorem slotErrors_again (xs : List Placed) :
    slotErrors b o (xs.map (hydrator b o).slot) = (slotErrors b o xs).filter HydrationError.isType := by
  induction xs with
  | nil => rfl
  | cons x xs ih =>
    rw [List.map_cons, slotErrors_cons, slotErrors_cons, List.filter_append, ih, slotOutcome_again]

theorem slotStats_again (xs : List Placed) :
    slotStats b o (xs.map (hydrator b o).slot) =
      .again (slotStats b o xs).expressions (slotErrors b o (xs.map (hydrator b o).slot)).length := by
  induction xs with
  | nil => rfl
  | cons x xs ih =>
    rw [List.map_cons, slotStats_cons, ih, slotErrors_cons, List.length_append, slotOutcome_again,
      HydrationStats.again_add]
    rfl

/-! ## Trees -/

/-- **Hydration is idempotent.** Hydrating a hydrated tree ends well and leaves it as it is. The errors are
those of the first time that are about types, in the same order; all leaves that hold SQL are counted as
hydrated already, and nothing else is counted but the errors. -/
theorem hydrating_twice_is_hydrating_once {t : ParseTree} {r : Outcome ParseTree}
    (h : t.hydrate b o = .ok r) :
    ∃ r₂ : Outcome ParseTree, r.value.hydrate b o = .ok r₂ ∧ r₂.value = r.value ∧
      r₂.errors = r.errors.filter (fun e => e.fault = .typeName) ∧
      r₂.stats = { expressions := r.stats.expressions
                   alreadyHydrated := r.stats.expressions
                   failed := r₂.errors.length } := by
  obtain ⟨hcase, rfl⟩ := ParseTree.hydrate_ok_inv h
  have hslots : (t.mapSlots (hydrator b o)).slots = t.slots.map (hydrator b o).slot :=
    ParseTree.slots_mapSlots _ t
  have hcase' : o.continueOnError = true ∨ slotErrors b o (t.mapSlots (hydrator b o)).slots = [] := by
    rw [hslots, slotErrors_again]
    rcases hcase with hcontinues | hnone
    · exact .inl hcontinues
    · exact .inr (by rw [hnone]; rfl)
  have hfixed : (t.mapSlots (hydrator b o)).mapSlots (hydrator b o) = t.mapSlots (hydrator b o) :=
    ParseTree.mapSlots_mapSlots fun x _ => hydrator_slot_again x
  refine ⟨_, ParseTree.hydrate_ok hcase', hfixed, ?_, ?_⟩
  · show slotErrors b o (t.mapSlots (hydrator b o)).slots = _
    rw [hslots, slotErrors_again]
    rfl
  · show slotStats b o (t.mapSlots (hydrator b o)).slots =
      .again (slotStats b o t.slots).expressions (slotErrors b o (t.mapSlots (hydrator b o)).slots).length
    rw [hslots, slotStats_again]

/-! ### A type and a statement that do not parse -/

/-- A variable with a type that is refused where the marks are, a statement that is too, and a result that
was hydrated before and edited since. -/
def refusedType : ParseTree :=
  [⟨[.scalar ⟨"total", 2, some (.raw "app.money!!"), false, false, some (.raw "0" .expression), none, none, 0⟩],
    ⟨3, none,
      [.simple 4 (.perform (.raw "SELECT !!" .statement)),
        .simple 5 (.ret
          (some (.hydrated "total" .expression (.expression (.identifier (.plain "amount"))))) none)], none⟩⟩]
theorem hydrating_twice_is_hydrating_once_refusedType :
    ∃ r r₂ : Outcome ParseTree, refusedType.hydrate .echo {} = .ok r ∧ r.errors.length = 2 ∧
      r.value.hydrate .echo {} = .ok r₂ ∧ r₂.value = r.value ∧ r₂.errors.length = 1 ∧
      r₂.stats = { expressions := 3, alreadyHydrated := 3, failed := 1 } := by
  have hfirst := ParseTree.hydrate_ok (b := .echo) (o := {}) (t := refusedType) (.inl rfl)
  obtain ⟨r₂, hsecond, hvalue, herrors, hstats⟩ := hydrating_twice_is_hydrating_once hfirst
  have hlength : r₂.errors.length = 1 := by
    rw [herrors]
    decide
  refine ⟨_, r₂, hfirst, ?_, hsecond, hvalue, hlength, ?_⟩
  · decide
  · rw [hstats, hlength]
    decide

end Routine
