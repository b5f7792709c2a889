import Routine.Hydration.Hydrate

/-!
# What hydrating a tree comes to

Hydration walks one routine after the other, with a flag that an error may raise and that ends the walk of
its routine, and then puts the routines together, from which those with a raised flag are dropped. None of
this shows in the end. What a tree comes to is read off the list of its slots: its errors are those of the
slots in order (`slotErrors`), its counts are theirs added up (`slotStats`), and there are two cases.

* If hydration goes on after errors, or there are none, every leaf of every routine is hydrated and
  everything is reported (`ParseTree.hydrate_ok`).
* If an error ends it, it is the first one of the list (`ParseTree.hydrate_error`). The walk that records
  it may record more before it ends, an assignment has two sides, but never an earlier one.

The step is `Walk.visit`, one leaf; the run is the walk over a list of slots, by induction on the list for
every walk before it. Both cases put together are `aborting_agrees_with_continuing`.
-/

namespace Routine

open Sql (Backend)

/-! ## Counts added up -/

namespace HydrationStats

theorem add_assoc (s t u : HydrationStats) : s + t + u = s + (t + u) := by
  show add (add s t) u = add s (add t u)
  simp only [add, Nat.add_assoc]

@[simp]
theorem zero_add (s : HydrationStats) : ({} : HydrationStats) + s = s := by
  show add {} s = s
  simp only [add, Nat.zero_add]

@[simp]
theorem add_zero (s : HydrationStats) : s + {} = s := rfl

/-- The counts of all parts together. -/
def total (parts : List HydrationStats) : HydrationStats := parts.foldr (· + ·) {}

theorem total_append (ss ts : List HydrationStats) : total (ss ++ ts) = total ss + total ts := by
  induction ss with
  | nil => exact (zero_add _).symm
  | cons s ss ih =>
    show s + total (ss ++ ts) = s + total ss + total ts
    rw [ih, add_assoc]

end HydrationStats

section

variable (b : Backend) (o : HydrateOptions)

/-- The errors of the slots, in order. -/
def slotErrors (xs : List Placed) : List HydrationError := xs.flatMap fun x => (slotOutcome b o x).1

/-- The counts of the slots together. -/
def slotStats (xs : List Placed) : HydrationStats := .total (xs.map fun x => (slotOutcome b o x).2)

end

variable {b : Backend} {o : HydrateOptions}

@[simp]
theorem slotErrors_cons (x : Placed) (xs : List Placed) :
    slotErrors b o (x :: xs) = (slotOutcome b o x).1 ++ slotErrors b o xs := rfl

@[simp]
theorem slotErrors_append (xs ys : List Placed) :
    slotErrors b o (xs ++ ys) = slotErrors b o xs ++ slotErrors b o ys :=
  List.flatMap_append

@[simp]
theorem slotStats_cons (x : Placed) (xs : List Placed) :
    slotStats b o (x :: xs) = (slotOutcome b o x).2 + slotStats b o xs := rfl

@[simp]
theorem slotStats_append (xs ys : List Placed) :
    slotStats b o (xs ++ ys) = slotStats b o xs + slotStats b o ys := by
  rw [slotStats, List.map_append, HydrationStats.total_append, slotStats, slotStats]

/-- What becomes of a slot is the same whether or not errors end hydration. -/
theorem hydrator_continueOnError (continues : Bool) :
    hydrator b { o with continueOnError := continues } = hydrator b o := by
  have hleaf : ∀ p l, (hydrateLeaf b { o with continueOnError := continues } p l).value =
      (hydrateLeaf b o p l).value := by
    intro p l
    cases l <;> rfl
  have htype : ∀ p t, (hydrateType b { o with continueOnError := continues } p t).value =
      (hydrateType b o p t).value := by
    intro p t
    cases t <;> rfl
  simp only [hydrator, hleaf, htype]

theorem slotOutcome_continueOnError (continues : Bool) (x : Placed) :
    slotOutcome b { o with continueOnError := continues } x = slotOutcome b o x := by
  obtain ⟨p, s⟩ := x
  cases s with
  | leaf l => cases l <;> rfl
  | type t => cases t <;> rfl

/-! ## One routine -/

namespace Walk

/-- A leaf is recorded whole, and ends the walk if it has an error and errors do so. -/
theorem visit_of_not_aborted {w : Walk} (hw : w.aborted = false) (x : Placed) :
    w.visit b o x = ⟨w.errors ++ (slotOutcome b o x).1, w.stats + (slotOutcome b o x).2,
      !o.continueOnError && !(slotOutcome b o x).1.isEmpty⟩ := by
  unfold visit
  rw [hw]
  rfl

theorem foldl_visit_of_aborted {w : Walk} (hw : w.aborted = true) (xs : List Placed) :
    xs.foldl (visit b o) w = w := by
  induction xs with
  | nil => rfl
  | cons x xs ih =>
    have hstep : w.visit b o x = w := by
      unfold visit
      rw [if_pos hw]
    rw [List.foldl_cons, hstep, ih]

/-- A walk that no error ends records every slot. -/
theorem foldl_visit {w : Walk} (hw : w.aborted = false) {xs : List Placed}
    (h : o.continueOnError = true ∨ slotErrors b o xs = []) :
    xs.foldl (visit b o) w = ⟨w.errors ++ slotErrors b o xs, w.stats + slotStats b o xs, false⟩ := by
  induction xs generalizing w with
  | nil =>
    obtain ⟨errors, stats, aborted⟩ := w
    obtain rfl : aborted = false := hw
    simp [slotErrors, slotStats, HydrationStats.total]
  | cons x xs ih =>
    rw [slotErrors_cons, List.append_eq_nil_iff] at h
    have hgoes : (!o.continueOnError && !(slotOutcome b o x).1.isEmpty) = false := by
      rcases h with hcontinues | ⟨hx, -⟩
      · simp [hcontinues]
      · simp [hx]
    rw [List.foldl_cons, visit_of_not_aborted hw, hgoes, ih rfl (h.imp_right And.right)]
    simp [HydrationStats.add_assoc]

/-- A walk that an error ends has the first error of the slots as its first. -/
theorem foldl_visit_aborts {w : Walk} (hw : w.aborted = false) (hstops : o.continueOnError = false)
    {xs : List Placed} {e : HydrationError} {es : List HydrationError} (h : slotErrors b o xs = e :: es) :
    (xs.foldl (visit b o) w).aborted = true ∧
      ∃ es', (xs.foldl (visit b o) w).errors = w.errors ++ e :: es' := by
  induction xs generalizing w with
  | nil => cases h
  | cons x xs ih =>
    rw [slotErrors_cons] at h
    rw [List.foldl_cons, visit_of_not_aborted hw, hstops]
    cases hx : (slotOutcome b o x).1 with
    | nil =>
      -- Nothing is recorded here, so the first error is still to come.
      rw [hx, List.nil_append] at h
      obtain ⟨haborted, es', herrors⟩ :=
        ih (w := ⟨w.errors ++ [], w.stats + (slotOutcome b o x).2, false⟩) rfl h
      refine ⟨haborted, es', ?_⟩
      rw [List.append_nil] at herrors
      simpa using herrors
    | cons e' es' =>
      rw [hx] at h
      obtain ⟨rfl, -⟩ := List.cons.inj h
      rw [foldl_visit_of_aborted (by simp)]
      exact ⟨by simp, es', rfl⟩

end Walk

namespace Function

variable {i : Nat} {f : Function}

theorem walk_eq (h : o.continueOnError = true ∨ slotErrors b o (f.slots i) = []) :
    f.walk b o i = ⟨slotErrors b o (f.slots i), slotStats b o (f.slots i), false⟩ := by
  rw [walk, Walk.foldl_visit rfl h]
  simp

theorem walk_aborts (hstops : o.continueOnError = false) {e : HydrationError} {es : List HydrationError}
    (h : slotErrors b o (f.slots i) = e :: es) :
    (f.walk b o i).aborted = true ∧ ∃ es', (f.walk b o i).errors = e :: es' :=
  Walk.foldl_visit_aborts rfl hstops h

end Function

/-! ## All routines -/

namespace ParseTree

variable {t : ParseTree} {r : Outcome ParseTree}

theorem hydrateFrom_ok {i : Nat}
    (h : o.continueOnError = true ∨ slotErrors b o (slotsFrom i t) = []) :
    t.hydrateFrom b o i = .ok ⟨t.mapSlotsFrom (hydrator b o) i, slotErrors b o (slotsFrom i t),
      slotStats b o (slotsFrom i t)⟩ := by
  induction t generalizing i with
  | nil => rfl
  | cons f fs ih =>
    rw [slotsFrom, slotErrors_append, List.append_eq_nil_iff] at h
    rw [hydrateFrom, Function.walk_eq (h.imp_right And.left), ih (h.imp_right And.right), slotsFrom,
      slotErrors_append, slotStats_append]
    rfl

theorem hydrateFrom_error {i : Nat} (hstops : o.continueOnError = false) {e : HydrationError}
    {es : List HydrationError} (h : slotErrors b o (slotsFrom i t) = e :: es) :
    t.hydrateFrom b o i = .error ⟨e.path, e.message⟩ := by
  induction t generalizing i with
  | nil => cases h
  | cons f fs ih =>
    rw [slotsFrom, slotErrors_append] at h
    cases hf : slotErrors b o (f.slots i) with
    | nil =>
      rw [hf, List.nil_append] at h
      rw [hydrateFrom, Function.walk_eq (.inr hf), ih h]
      rfl
    | cons e' es' =>
      rw [hf] at h
      obtain ⟨rfl, -⟩ := List.cons.inj h
      obtain ⟨haborted, rest, herrors⟩ := Function.walk_aborts hstops hf
      simp only [hydrateFrom, haborted, herrors, if_true]

/-- If errors do not end hydration or there are none, every leaf of every routine is hydrated and
everything is reported. -/
theorem hydrate_ok (h : o.continueOnError = true ∨ slotErrors b o t.slots = []) :
    t.hydrate b o = .ok ⟨t.mapSlots (hydrator b o), slotErrors b o t.slots, slotStats b o t.slots⟩ :=
  hydrateFrom_ok h

/-- If errors end hydration, the first one of the tree does. -/
theorem hydrate_error (hstops : o.continueOnError = false) {e : HydrationError} {es : List HydrationError}
    (h : slotErrors b o t.slots = e :: es) : t.hydrate b o = .error ⟨e.path, e.message⟩ :=
  hydrateFrom_error hstops h

/-- Hydration that ends well is of the first kind. -/
theorem hydrate_ok_inv (h : t.hydrate b o = .ok r) :
    (o.continueOnError = true ∨ slotErrors b o t.slots = []) ∧
      r = ⟨t.mapSlots (hydrator b o), slotErrors b o t.slots, slotStats b o t.slots⟩ := by
  have hcase : o.continueOnError = true ∨ slotErrors b o t.slots = [] := by
    cases hcontinues : o.continueOnError with
    | true => exact .inl rfl
    | false =>
      cases herrors : slotErrors b o t.slots with
      | nil => exact .inr rfl
      | cons e es =>
        rw [hydrate_error hcontinues herrors] at h
        cases h
  rw [hydrate_ok hcase] at h
  exact ⟨hcase, (Except.ok.inj h).symm⟩

theorem hydrate_value (h : t.hydrate b o = .ok r) : r.value = t.mapSlots (hydrator b o) := by
  rw [(hydrate_ok_inv h).2]

theorem getElem?_mapSlotsFrom (m : Mapper) (t : ParseTree) (i k : Nat) :
    (t.mapSlotsFrom m i)[k]? = t[k]?.map (Function.mapSlots m (i + k)) := by
  induction t generalizing i k with
  | nil => rfl
  | cons f fs ih =>
    cases k with
    | zero => rfl
    | succ k =>
      show (mapSlotsFrom m (i + 1) fs)[k]? = fs[k]?.map (Function.mapSlots m (i + (k + 1)))
      rw [ih, Nat.add_right_comm, Nat.add_assoc]

/-- The routine in a place, mapped. -/
theorem getElem?_mapSlots (m : Mapper) (t : ParseTree) (k : Nat) :
    (t.mapSlots m)[k]? = t[k]?.map (Function.mapSlots m k) := by
  rw [mapSlots, getElem?_mapSlotsFrom, Nat.zero_add]

end ParseTree

/-- **Hydration that stops at errors agrees with hydration that goes on.** Going on always ends well.
Stopping ends with the first error that going on reports, and if it reports none the two give the same
tree and counts. Whenever hydration ends well, every routine stands in its place with its leaves
hydrated. -/
theorem aborting_agrees_with_continuing (b : Backend) (o : HydrateOptions) (t : ParseTree) :
    ∃ c : Outcome ParseTree, t.hydrate b { o with continueOnError := true } = .ok c ∧
      (t.hydrate b { o with continueOnError := false } =
        match c.errors with
        | e :: _ => .error ⟨e.path, e.message⟩
        | [] => .ok c) ∧
      ∀ r : Outcome ParseTree, t.hydrate b o = .ok r →
        ∀ k : Nat, r.value[k]? = t[k]?.map (Function.mapSlots (hydrator b o) k) := by
  have herrors : ∀ continues, slotErrors b { o with continueOnError := continues } t.slots =
      slotErrors b o t.slots := by
    intro continues
    simp only [slotErrors, slotOutcome_continueOnError]
  have hstats : ∀ continues, slotStats b { o with continueOnError := continues } t.slots =
      slotStats b o t.slots := by
    intro continues
    simp only [slotStats, slotOutcome_continueOnError]
  refine ⟨⟨t.mapSlots (hydrator b o), slotErrors b o t.slots, slotStats b o t.slots⟩, ?_, ?_, ?_⟩
  · rw [ParseTree.hydrate_ok (.inl rfl), hydrator_continueOnError, herrors, hstats]
  · cases h : slotErrors b o t.slots with
    | nil =>
      rw [← herrors false] at h
      rw [ParseTree.hydrate_ok (.inr h), hydrator_continueOnError, hstats, h]
    | cons e es =>
      rw [← herrors false] at h
      exact ParseTree.hydrate_error rfl h
  · intro r hr k
    rw [ParseTree.hydrate_value hr, ParseTree.getElem?_mapSlots]

/-! ### A routine whose leaf parses, and one in which nothing does -/

/-- In the second routine neither side of the assignment is read by a backend that refuses the marks, nor is
the statement after it. -/
def halfReadable : ParseTree :=
  [⟨[], ⟨1, none, [.simple 2 (.ret (some (.raw "total" .expression)) none)], none⟩⟩,
    ⟨[], ⟨1, none,
      [.simple 2 (.assign 0 (.raw "x!! := y!!" .assign1)),
        .simple 3 (.perform (.raw "SELECT !!" .statement))], none⟩⟩]

/-- Where the assignment is. -/
def halfReadableAssignment : Path :=
  [.item "functions" 1, .member "action", .item "body" 0, .member "expr"]

theorem aborting_agrees_with_continuing_halfReadable :
    ∃ c : Outcome ParseTree, halfReadable.hydrate .echo {} = .ok c ∧ c.errors.length = 3 ∧
      c.value[1]? = halfReadable[1]?.map (Function.mapSlots (hydrator .echo {}) 1) ∧
      halfReadable.hydrate .echo { continueOnError := false } =
        .error ⟨halfReadableAssignment, "`x!!`: SQL parse error: echo refuses <x!!>"⟩ := by
  obtain ⟨c, hcontinues, hstops, hroutines⟩ := aborting_agrees_with_continuing .echo {} halfReadable
  have herrors : c.errors = slotErrors .echo {} halfReadable.slots := by
    rw [(ParseTree.hydrate_ok_inv hcontinues).2]
  have hfirst : ∃ es, c.errors = ⟨halfReadableAssignment, "x!! := y!!", .assign1, .leafParse,
      "`x!!`: SQL parse error: echo refuses <x!!>"⟩ :: es := by
    refine ⟨(slotErrors .echo {} halfReadable.slots).tail, ?_⟩
    rw [herrors]
    decide +kernel
  obtain ⟨es, hfirst⟩ := hfirst
  refine ⟨c, hcontinues, ?_, hroutines c hcontinues 1, ?_⟩
  · rw [herrors]
    decide +kernel
  · rw [hfirst] at hstops
    exact hstops

end Routine
