import Routine.Proofs.Declared

/-!
# Variables that loops introduce

A loop that names a target of its own line introduces it, and what a loop introduces is not declared. The
plan knows loops by their lines only (`Block.mem_loopLines`): it leaves out every variable in the line of
such a loop, whatever its name (`Function.IsUserVariable.mem_places_iff`). So a variable of the source is
declared, or some loop introduces it, exactly when the loops of its line that introduce anything introduce it
too. In a routine written in one line they need not (`counting`).
-/

namespace Routine

/-- What each round of a loop puts its value into, when the loop holds it. `FOREACH` refers to a datum by
its number. -/
def LoopHead.target? : LoopHead → Option Datum
  | .range target .. => some target
  | .query target _ => some target
  | .cursor target .. => some target
  | .dynamic target .. => some target
  | .forever => none
  | .whilst _ => none
  | .array .. => none

/-- The statement is a loop whose target is declared in the loop's own line. -/
inductive Stmt.Introduces : Stmt → Datum → Prop
  | loop {line : Int32} {label : Option String} {head : LoopHead} {body : List Stmt} {target : Datum}
      (htarget : head.target? = some target) (hline : target.line = line) :
      Introduces (.loop line label head body) target

theorem Stmt.loopLine?_eq_some_iff {s : Stmt} {line : Int32} :
    s.loopLine? = some line ↔ ∃ target, s.Introduces target ∧ target.line = line := by
  constructor
  · intro h
    -- The kinds of loops that hold a target have one line each in `loopLine?`, and all are alike.
    have hown : ∃ label head body target, s = .loop line label head body ∧
        head.target? = some target ∧ target.line = line := by
      unfold loopLine? at h
      split at h
      case h_5 => cases h
      all_goals
        split at h
        · next hline =>
          cases h
          exact ⟨_, _, _, _, rfl, rfl, hline⟩
        · cases h
    obtain ⟨label, head, body, target, rfl, htarget, hline⟩ := hown
    exact ⟨target, .loop htarget hline, hline⟩
  · rintro ⟨target, ⟨htarget, hline⟩, rfl⟩
    subst hline
    rename_i head _
    cases head <;> cases htarget <;> simp [loopLine?]

theorem Block.mem_loopLines {b : Block} {line : Int32} :
    line ∈ b.loopLines ↔ ∃ s ∈ b.preorder, ∃ target, s.Introduces target ∧ target.line = line := by
  rw [loopLines, mem_ascending, List.mem_filterMap]
  exact exists_congr fun s => and_congr_right fun _ => Stmt.loopLine?_eq_some_iff

theorem Plan.mem_places {plan : Plan} {i : Nat} :
    i ∈ plan.places ↔ i ∈ plan.topLevel ∨ ∃ entry ∈ plan.nested, i ∈ entry.2 := by
  rw [places, Pending.places, List.mem_append, List.mem_flatMap]

namespace Function

variable {f : Function} {i : Nat} {d : Datum}

/-- Some loop of the routine introduces a datum with this name in this line. -/
def Introduces (f : Function) (d : Datum) : Prop :=
  ∃ s ∈ f.action.preorder, ∃ target, s.Introduces target ∧ target.name? = d.name? ∧ target.line = d.line

/-- The datum in the place is written as a declaration of its own in the source: a variable or a record with a
line and a name, and no argument of a cursor. -/
structure IsUserVariable (f : Function) (i : Nat) (d : Datum) : Prop where
  place : f.data[i]? = some d
  kind : isVariable d = true
  line : 0 < d.line
  name : ∀ name ∈ d.name?, isInternalName name = false
  argument : f.isCursorArgument i = false

/-- Nothing but the line of a loop keeps a user's variable from being declared. -/
theorem IsUserVariable.isDeclarable_iff (h : f.IsUserVariable i d) :
    f.isDeclarable i d = true ↔ d.line ∉ f.action.loopLines := by
  have hname : (d.name?.map isInternalName).getD false = false := by
    cases hd : d.name? with
    | none => rfl
    | some name => exact h.name name hd
  simp [isDeclarable, h.kind, h.line, hname, h.argument]

theorem IsUserVariable.mem_places_iff (h : f.IsUserVariable i d) :
    i ∈ (Plan.ofFunction f).places ↔
      ∀ s ∈ f.action.preorder, ∀ target, s.Introduces target → target.line ≠ d.line := by
  have hplace : i ∈ (Plan.ofFunction f).places ↔ f.isDeclarable i d = true := by
    rw [mem_places_iff_isDeclarable]
    constructor
    · rintro ⟨d', hd', hdeclarable⟩
      have hsame : some d' = some d := hd'.symm.trans h.place
      exact Option.some.inj hsame ▸ hdeclarable
    · intro hdeclarable
      exact ⟨d, h.place, hdeclarable⟩
  rw [hplace, h.isDeclarable_iff, Block.mem_loopLines]
  exact ⟨fun hnone s hs target ht hline => hnone ⟨s, hs, target, ht, hline⟩,
    fun hnone ⟨s, hs, target, ht, hline⟩ => hnone s hs target ht hline⟩

end Function

/-- **Which variables are kept.** A variable of the source is planned for, in the outermost block or in a
nested one, or a loop introduces it, exactly when the loops that introduce anything in its line include one
that introduces it. -/
theorem user_variable_is_kept_iff {f : Function} {i : Nat} {d : Datum} (h : f.IsUserVariable i d) :
    ((i ∈ (Plan.ofFunction f).topLevel ∨ ∃ entry ∈ (Plan.ofFunction f).nested, i ∈ entry.2) ∨
        f.Introduces d) ↔
      ((∃ s ∈ f.action.preorder, ∃ target, s.Introduces target ∧ target.line = d.line) →
        f.Introduces d) := by
  rw [← Plan.mem_places, h.mem_places_iff]
  constructor
  · rintro (hnone | hown)
    · rintro ⟨s, hs, target, ht, hline⟩
      exact absurd hline (hnone s hs target ht)
    · exact fun _ => hown
  · intro hline
    by_cases hany : ∃ s ∈ f.action.preorder, ∃ target, s.Introduces target ∧ target.line = d.line
    · exact .inr (hline hany)
    · refine .inl ?_
      intro s hs target ht heq
      exact hany ⟨s, hs, target, ht, heq⟩

/-! ### A routine in one line -/

/-- A variable. -/
def integerVariable (name : String) (line : Int32) : Datum :=
  .scalar ⟨name, line, some (.raw "integer"), false, false, none, none, none, 0⟩

/-- A routine whose declarations end in a line, with a loop over a variable of its own in another. -/
def counting (declared looped : Int32) : Function :=
  ⟨[integerVariable "total" declared, integerVariable "i" looped],
    ⟨declared, none,
      [.loop looped none
        (.range (integerVariable "i" looped) (.raw "1" .expression) (.raw "3" .expression) none false)
        [.simple looped (.assign 0 (.raw "total := total + i" .assign1))]],
      none⟩⟩

theorem counting_introduces {declared looped : Int32} {s : Stmt} {target : Datum}
    (hs : s ∈ (counting declared looped).action.preorder) (h : s.Introduces target) :
    target = integerVariable "i" looped := by
  simp only [counting, Block.preorder, Stmts.preorder, Stmt.preorder, Handlers.preorder?,
    List.append_nil, List.mem_cons, List.not_mem_nil, or_false] at hs
  rcases hs with rfl | rfl
  · obtain ⟨htarget, -⟩ := h
    exact (Option.some.inj htarget).symm
  · cases h

theorem counting_total_isUserVariable {declared looped : Int32} (h : 0 < declared) :
    (counting declared looped).IsUserVariable 0 (integerVariable "total" declared) := by
  refine ⟨rfl, rfl, h, ?_, rfl⟩
  rintro name ⟨⟩
  show isInternalName "total" = false
  decide

theorem user_variable_is_kept_iff_counting :
    (counting 1 2).IsUserVariable 0 (integerVariable "total" 1) ∧
      ((0 ∈ (Plan.ofFunction (counting 1 2)).topLevel ∨
          ∃ entry ∈ (Plan.ofFunction (counting 1 2)).nested, 0 ∈ entry.2) ∨
        (counting 1 2).Introduces (integerVariable "total" 1)) := by
  have htotal : (counting 1 2).IsUserVariable 0 (integerVariable "total" 1) :=
    counting_total_isUserVariable (by decide)
  refine ⟨htotal, (user_variable_is_kept_iff htotal).2 ?_⟩
  rintro ⟨s, hs, target, ht, hline⟩
  rw [counting_introduces hs ht] at hline
  exact absurd hline (by decide)

/-- In one line, the loop hides the variable before it: nothing declares it or introduces it. -/
theorem user_variable_of_the_loop_line_is_lost :
    ¬ ∀ (f : Function) (i : Nat) (d : Datum), f.IsUserVariable i d →
      (i ∈ (Plan.ofFunction f).topLevel ∨ ∃ entry ∈ (Plan.ofFunction f).nested, i ∈ entry.2) ∨
        f.Introduces d := by
  intro hkept
  rcases hkept (counting 1 1) 0 _ (counting_total_isUserVariable (by decide)) with hplanned | hintroduced
  · have hplan : Plan.ofFunction (counting 1 1) = ⟨[], []⟩ := by decide
    simp [hplan] at hplanned
  · obtain ⟨s, hs, target, ht, hname, -⟩ := hintroduced
    rw [counting_introduces hs ht] at hname
    exact absurd hname (by decide)

end Routine
