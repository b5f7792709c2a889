import Routine.Hydration.Dehydrate
import Routine.Hydration.Hydrate

/-!
# What hydration makes of a leaf

The options and the mode of a raw leaf choose one of four ways for it (`RawWay`), and nothing after
`hydrateRaw_way` looks into that choice again. Of what hydration can leave behind in a raw leaf there are only
a few kinds: the text with nothing beside it, or with trees that are fresh parses of it. `Content.Fresh` and
`TypeRef.Fresh` say this once (`hydrateLeaf_raw_fresh`, `hydrateType_raw_fresh`).

Freshness is what dehydration tests. A fresh leaf therefore has the text that it was captured with
(`Content.Fresh.text_eq`, `TypeRef.Fresh.text_eq`), whatever the backend renders.

What is reported about a leaf is said in the same way: it is about this leaf, and its fault is one of
leaves that hold SQL (`hydrateLeaf_ofSql`), or of types (`hydrateType_ofType`).
-/

namespace Routine

open Sql (Backend BackendError Tree)

variable {b : Backend} {o : HydrateOptions}

/-! ## Ways of a raw leaf -/

/-- What becomes of a raw leaf. An assignment counts as one also if it is kept. -/
inductive RawWay (b : Backend) (o : HydrateOptions) (path : Path) (text : String) (mode : ParseMode) :
    Outcome Leaf → Prop
  | assignment (hmode : mode.isAssignment = true) (hon : o.assignments = true) :
      RawWay b o path text mode
        { hydrateAssignment b path text mode with
          stats := { (hydrateAssignment b path text mode).stats with assignments := 1 } }
  | statement (hmode : mode = .statement) (hon : o.expressions = true) :
      RawWay b o path text mode (hydrateStatement b path text mode)
  | expression (hmode : mode = .expression) (hon : o.expressions = true) :
      RawWay b o path text mode (hydrateExpression b path text mode)
  | kept (hassignment : mode.isAssignment = true → o.assignments = false)
      (hexpression : mode = .statement ∨ mode = .expression → o.expressions = false) :
      RawWay b o path text mode
        { keepRaw text mode with
          stats := { (keepRaw text mode).stats with assignments := if mode.isAssignment then 1 else 0 } }

theorem hydrateRaw_way (path : Path) (text : String) (mode : ParseMode) :
    RawWay b o path text mode (hydrateRaw b o path text mode) := by
  by_cases hmode : mode.isAssignment = true
  · by_cases hon : o.assignments = true
    · rw [hydrateRaw, if_pos hmode, if_pos hon]
      exact .assignment hmode hon
    · have hother : ¬ (mode = .statement ∨ mode = .expression) := by
        rintro (rfl | rfl) <;> cases hmode
      have hway : RawWay b o path text mode _ := .kept (fun _ => Bool.eq_false_iff.2 hon) (fun h => absurd h hother)
      rw [if_pos hmode] at hway
      rwa [hydrateRaw, if_pos hmode, if_neg hon]
  · have hkept (hexpression : mode = .statement ∨ mode = .expression → o.expressions = false) :
        RawWay b o path text mode (keepRaw text mode) := by
      have hway : RawWay b o path text mode _ := .kept (fun h => absurd h hmode) hexpression
      rwa [if_neg hmode] at hway
    rw [hydrateRaw, if_neg hmode]
    split
    · next hoff => exact hkept fun _ => hoff
    · next hon =>
      have hon : o.expressions = true := (Bool.not_eq_false _).mp hon
      split
      · next hstatement => exact .statement hstatement hon
      · next hstatement =>
        split
        · next hexpression => exact .expression hexpression hon
        · next hexpression => exact hkept fun h => absurd h (not_or.2 ⟨hstatement, hexpression⟩)

/-! ## Fresh leaves -/

/-- The tree of one side of an assignment, if it has one, is what parsing the side gives. -/
def FreshSide (b : Backend) (text : String) (tree : Option Tree) : Prop :=
  ∀ t ∈ tree, b.parseExpression text = .ok t

/-- Every tree of the content is what parsing the text gives. -/
inductive Content.Fresh (b : Backend) (text : String) : Content → Prop
  | raw : Fresh b text .raw
  | statement {tree : Tree} (h : b.parseStatement text = .ok tree) : Fresh b text (.statement tree)
  | expression {tree : Tree} (h : b.parseExpression text = .ok tree) : Fresh b text (.expression tree)
  | assignment {target value : String} {targetTree valueTree : Option Tree}
      (htarget : FreshSide b target targetTree) (hvalue : FreshSide b value valueTree) :
      Fresh b text (.assignment target value targetTree valueTree)

/-- The type is raw, or its tree is what parsing its base gives. -/
inductive TypeRef.Fresh (b : Backend) (name : String) : TypeRef → Prop
  | raw : Fresh b name (.raw name)
  | hydrated {base : String} {suffix : Option String} {tree : Tree}
      (hbase : TypeName.parsable? name = some (base, suffix)) (htree : b.parseType base = .ok tree) :
      Fresh b name (.hydrated name tree suffix)

theorem parseSide_fresh (path : Path) (text : String) (mode : ParseMode) (side : String) :
    FreshSide b side (parseSide b path text mode side).1 := by
  intro t ht
  unfold parseSide at ht
  cases hparse : b.parseExpression side with
  | error e => simp [hparse] at ht
  | ok tree => simpa [hparse] using ht

theorem hydrateStatement_fresh (path : Path) (text : String) (mode : ParseMode) :
    ∃ c, (hydrateStatement b path text mode).value = .hydrated text mode c ∧ c.Fresh b text := by
  unfold hydrateStatement
  cases hparse : b.parseStatement text with
  | error e => exact ⟨.raw, rfl, .raw⟩
  | ok tree => exact ⟨.statement tree, rfl, .statement hparse⟩

theorem hydrateExpression_fresh (path : Path) (text : String) (mode : ParseMode) :
    ∃ c, (hydrateExpression b path text mode).value = .hydrated text mode c ∧ c.Fresh b text := by
  unfold hydrateExpression
  cases hparse : b.parseExpression text with
  | error e => exact ⟨.raw, rfl, .raw⟩
  | ok tree => exact ⟨.expression tree, rfl, .expression hparse⟩

theorem hydrateAssignment_fresh (path : Path) (text : String) (mode : ParseMode) :
    ∃ c, (hydrateAssignment b path text mode).value = .hydrated text mode c ∧ c.Fresh b text := by
  unfold hydrateAssignment
  cases Assignment.parse text with
  | error fault => exact ⟨.raw, rfl, .raw⟩
  | ok sides =>
    exact ⟨_, rfl, .assignment (parseSide_fresh path text mode sides.target)
      (parseSide_fresh path text mode sides.value)⟩

/-- A raw leaf keeps its text and its mode, and what is put beside the text is fresh. -/
theorem hydrateLeaf_raw_fresh (path : Path) (text : String) (mode : ParseMode) :
    ∃ c, (hydrateLeaf b o path (.raw text mode)).value = .hydrated text mode c ∧ c.Fresh b text := by
  have hway := hydrateRaw_way (b := b) (o := o) path text mode
  rw [hydrateLeaf]
  generalize hydrateRaw b o path text mode = outcome at hway ⊢
  cases hway with
  | assignment hmode hon => exact hydrateAssignment_fresh path text mode
  | statement hmode hon => exact hydrateStatement_fresh path text mode
  | expression hmode hon => exact hydrateExpression_fresh path text mode
  | kept hassignment hexpression => exact ⟨.raw, rfl, .raw⟩

/-- A raw type stays as it is, or gets a fresh tree. -/
theorem hydrateType_raw_fresh (path : Path) (name : String) :
    (hydrateType b o path (.raw name)).value.Fresh b name := by
  simp only [hydrateType]
  split
  · exact .raw
  · next base suffix hbase =>
    have hparsable : TypeName.parsable? name = some (base, suffix) := by
      split at hbase
      · exact hbase
      · cases hbase
    cases htree : b.parseType base with
    | error e => exact .raw
    | ok tree => exact .hydrated hparsable htree

/-! ## Reports -/

/-- The outcome of a leaf that holds SQL: it is counted once, and what is reported is about it. -/
structure Outcome.OfSql (path : Path) (text : String) (mode : ParseMode) (r : Outcome Leaf) : Prop where
  counted : r.stats.expressions = 1
  reported : ∀ e ∈ r.errors, e.path = path ∧ e.captured = text ∧ e.mode = mode ∧ e.fault ≠ .typeName

theorem refuseLeaf_ofSql (path : Path) (text : String) (mode : ParseMode) {fault : HydrationFault}
    (hfault : fault ≠ .typeName) (message : String) :
    (refuseLeaf path text mode fault message).OfSql path text mode := by
  refine ⟨rfl, ?_⟩
  intro e he
  rw [List.mem_singleton.1 he]
  exact ⟨rfl, rfl, rfl, hfault⟩

theorem parseSide_reported (path : Path) (text : String) (mode : ParseMode) (side : String) :
    ∀ e ∈ (parseSide b path text mode side).2,
      e.path = path ∧ e.captured = text ∧ e.mode = mode ∧ e.fault ≠ .typeName := by
  unfold parseSide
  cases b.parseExpression side with
  | ok tree => exact List.forall_mem_nil _
  | error fault =>
    intro e he
    rw [List.mem_singleton.1 he]
    exact ⟨rfl, rfl, rfl, HydrationFault.noConfusion⟩

theorem hydrateAssignment_ofSql (path : Path) (text : String) (mode : ParseMode) :
    (hydrateAssignment b path text mode).OfSql path text mode := by
  unfold hydrateAssignment
  cases Assignment.parse text with
  | error fault => exact refuseLeaf_ofSql path text mode HydrationFault.noConfusion _
  | ok sides =>
    refine ⟨rfl, ?_⟩
    intro e he
    rcases List.mem_append.1 he with he | he
    · exact parseSide_reported path text mode sides.target e he
    · exact parseSide_reported path text mode sides.value e he

theorem hydrateStatement_ofSql (path : Path) (text : String) (mode : ParseMode) :
    (hydrateStatement b path text mode).OfSql path text mode := by
  unfold hydrateStatement
  cases b.parseStatement text with
  | error e => exact refuseLeaf_ofSql path text mode HydrationFault.noConfusion _
  | ok tree => exact ⟨rfl, List.forall_mem_nil _⟩

theorem hydrateExpression_ofSql (path : Path) (text : String) (mode : ParseMode) :
    (hydrateExpression b path text mode).OfSql path text mode := by
  unfold hydrateExpression
  cases b.parseExpression text with
  | error e => exact refuseLeaf_ofSql path text mode HydrationFault.noConfusion _
  | ok tree => exact ⟨rfl, List.forall_mem_nil _⟩

theorem hydrateLeaf_ofSql (path : Path) (l : Leaf) :
    (hydrateLeaf b o path l).OfSql path l.captured l.mode := by
  cases l with
  | hydrated captured mode content => exact ⟨rfl, List.forall_mem_nil _⟩
  | raw text mode =>
    have hway := hydrateRaw_way (b := b) (o := o) path text mode
    rw [hydrateLeaf, Leaf.captured, Leaf.mode]
    generalize hydrateRaw b o path text mode = outcome at hway ⊢
    -- Counting an assignment changes neither the errors nor the count of leaves.
    cases hway with
    | assignment hmode hon =>
      have hread := hydrateAssignment_ofSql (b := b) path text mode
      exact ⟨hread.counted, hread.reported⟩
    | statement hmode hon => exact hydrateStatement_ofSql path text mode
    | expression hmode hon => exact hydrateExpression_ofSql path text mode
    | kept hassignment hexpression => exact ⟨rfl, List.forall_mem_nil _⟩

/-- The outcome of a type: it is no leaf that holds SQL, and what is reported is about it. -/
structure Outcome.OfType (path : Path) (name : String) (r : Outcome TypeRef) : Prop where
  uncounted : r.stats.expressions = 0
  reported : ∀ e ∈ r.errors,
    e.path = path ∧ e.captured = name ∧ e.mode = .typeName ∧ e.fault = .typeName

theorem hydrateType_ofType (path : Path) (t : TypeRef) :
    (hydrateType b o path t).OfType path t.captured := by
  cases t with
  | hydrated captured tree suffix => exact ⟨rfl, List.forall_mem_nil _⟩
  | raw name =>
    simp only [hydrateType, TypeRef.captured]
    split
    · exact ⟨rfl, List.forall_mem_nil _⟩
    · split
      · exact ⟨rfl, List.forall_mem_nil _⟩
      · refine ⟨rfl, ?_⟩
        intro e he
        rw [List.mem_singleton.1 he]
        exact ⟨rfl, rfl, rfl, rfl⟩

/-- What is reported about a slot has its path. -/
theorem path_of_mem_slotOutcome {x : Placed} {e : HydrationError} (he : e ∈ (slotOutcome b o x).1) :
    e.path = x.1 := by
  obtain ⟨path, s⟩ := x
  cases s with
  | leaf l => exact ((hydrateLeaf_ofSql path l).reported e he).1
  | type t => exact ((hydrateType_ofType path t).reported e he).1

/-! ## Fresh leaves have their text -/

theorem isUnedited_ok (tree : Tree) : isUnedited (.ok tree) tree = true :=
  Tree.same_refl tree

theorem expressionText_fresh {text : String} {tree : Tree} (h : b.parseExpression text = .ok tree) :
    expressionText b text tree = text := by
  rw [expressionText, h, isUnedited_ok, if_pos rfl]

theorem FreshSide.text_eq {text : String} : ∀ {tree : Option Tree}, FreshSide b text tree →
    sideText b text tree = text
  | none, _ => rfl
  | some tree, h => expressionText_fresh (h tree rfl)

/-- A fresh leaf has the text that it was captured with. -/
theorem Content.Fresh.text_eq {text : String} {c : Content} (h : c.Fresh b text) :
    c.text b text = text := by
  cases h with
  | raw => rfl
  | statement h => rw [Content.text, statementText, h, isUnedited_ok, if_pos rfl]
  | expression h => exact expressionText_fresh h
  | assignment htarget hvalue => simp [Content.text, htarget.text_eq, hvalue.text_eq]

theorem isUneditedType_fresh {name base : String} {suffix : Option String} {tree : Tree}
    (hbase : TypeName.parsable? name = some (base, suffix)) (htree : b.parseType base = .ok tree) :
    isUneditedType b name tree = true := by
  unfold isUneditedType
  rw [hbase]
  show isUnedited (b.parseType base) tree = true
  rw [htree]
  exact isUnedited_ok tree

/-- A fresh type has the text that it was captured with. -/
theorem TypeRef.Fresh.text_eq {name : String} {t : TypeRef} (h : t.Fresh b name) :
    t.text b = name := by
  cases h with
  | raw => rfl
  | hydrated hbase htree => rw [TypeRef.text, if_pos (isUneditedType_fresh hbase htree)]

end Routine
