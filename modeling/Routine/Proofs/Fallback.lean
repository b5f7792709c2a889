import Routine.Proofs.Paths
import Routine.Proofs.Reports
import Routine.Proofs.Untouched

/-!
# The captured text is always there

Dehydration prefers what the backend renders, but nothing depends on it: a leaf has kept the text that it was
parsed from. With a backend that renders nothing, every leaf falls back to this text, whatever has been done
to its trees since and whatever the backend parses. An assignment falls back side by side, and since neither
side has changed then, its text is the captured one and not the sides joined anew.

The result is said of the whole tree. A tree is its skeleton and its slots, and nothing more
(`ParseTree.eq_of_skeleton_of_slots`): the skeleton can be filled with the slots again, because no two of them
stand at the same path. So a tree with the skeleton of the first one, and its captured texts for slots, is the
dehydrated tree.
-/

namespace Routine

open Sql (Backend Tree)

/-! ## A tree is its skeleton and its slots -/

/-- Puts the leaves of a tree back into their places. -/
def Mapper.refill (t : ParseTree) : Mapper where
  leaf path l :=
    match t.slot? path.render with
    | some (.leaf l') => l'
    | _ => l
  type path r :=
    match t.slot? path.render with
    | some (.type r') => r'
    | _ => r

namespace ParseTree

variable {t t' : ParseTree}

/-- The skeleton filled with the slots is the tree. -/
theorem mapSlots_refill (t : ParseTree) : t.skeleton.mapSlots (.refill t) = t := by
  have hfuses : Mapper.blank.Fuses (.refill t) .keep t.slots := by
    rintro ⟨p, s⟩ hx
    have hfound : t.slot? p.render = some s := slot?_of_mem hx
    rw [Mapper.slot_keep]
    cases s with
    | leaf l => simp only [Mapper.slot, Mapper.refill, hfound]
    | type r => simp only [Mapper.slot, Mapper.refill, hfound]
  rw [skeleton, mapSlots_mapSlots hfuses, mapSlots_keep]

theorem eq_of_skeleton_of_slots (hskeleton : t.skeleton = t'.skeleton) (hslots : t.slots = t'.slots) :
    t = t' := by
  have hrefill : Mapper.refill t = .refill t' := by
    simp only [Mapper.refill, slot?, hslots]
  rw [← mapSlots_refill t, ← mapSlots_refill t', hskeleton, hrefill]

end ParseTree

/-! ## Backends that render nothing -/

/-- The backend renders nothing. What it parses is up to it. -/
structure Sql.Backend.IsMute (b : Backend) : Prop where
  statement : ∀ tree, Fails (b.renderStatement tree)
  expression : ∀ tree, Fails (b.renderExpression tree)
  type : ∀ tree, Fails (b.renderType tree)

theorem Sql.Backend.isMute_mute : Backend.mute.IsMute :=
  ⟨fun _ => ⟨_, rfl⟩, fun _ => ⟨_, rfl⟩, fun _ => ⟨_, rfl⟩⟩

theorem renderedOr_of_fails {rendered : Except Sql.BackendError String} (h : Fails rendered)
    (captured : String) : renderedOr rendered captured = captured := by
  obtain ⟨e, rfl⟩ := h
  rfl

/-- A hydrated leaf goes back to the text it was captured with; a raw one is as it was. -/
def Slot.recaptured : Slot → Slot
  | leaf (.hydrated captured mode _) => leaf (.raw captured mode)
  | type (.hydrated captured _ _) => type (.raw captured)
  | s => s

section

variable {b : Backend}

namespace Sql.Backend.IsMute

variable (hmute : b.IsMute)

include hmute

theorem statementText_eq (captured : String) (tree : Tree) : statementText b captured tree = captured := by
  rw [statementText, renderedOr_of_fails (hmute.statement tree), ite_self]

theorem expressionText_eq (captured : String) (tree : Tree) : expressionText b captured tree = captured := by
  rw [expressionText, renderedOr_of_fails (hmute.expression tree), ite_self]

theorem sideText_eq (captured : String) (tree : Option Tree) : sideText b captured tree = captured := by
  cases tree with
  | none => rfl
  | some tree => exact hmute.expressionText_eq captured tree

theorem content_text_eq (captured : String) (content : Content) : content.text b captured = captured := by
  cases content with
  | raw => rfl
  | statement tree => exact hmute.statementText_eq captured tree
  | expression tree => exact hmute.expressionText_eq captured tree
  | assignment target value targetTree valueTree =>
    -- Each side falls back to its own text, so the whole counts as unchanged.
    rw [Content.text, hmute.sideText_eq, hmute.sideText_eq, if_pos ⟨rfl, rfl⟩]

theorem leaf_text_eq (l : Leaf) : l.text b = l.captured := by
  cases l with
  | raw text mode => rfl
  | hydrated captured mode content => exact hmute.content_text_eq captured content

theorem type_text_eq (t : TypeRef) : t.text b = t.captured := by
  cases t with
  | raw name => rfl
  | hydrated captured tree suffix =>
    obtain ⟨e, he⟩ := hmute.type tree
    rw [TypeRef.text, he]
    exact ite_self captured

theorem dehydrator_slot (x : Placed) : (dehydrator b).slot x = (x.1, x.2.recaptured) := by
  obtain ⟨p, s⟩ := x
  cases s with
  | leaf l =>
    simp only [Mapper.slot, dehydrator, Leaf.dehydrate, hmute.leaf_text_eq]
    cases l with
    | raw text mode => rfl
    | hydrated captured mode content => rfl
  | type t =>
    simp only [Mapper.slot, dehydrator, TypeRef.dehydrate, hmute.type_text_eq]
    cases t with
    | raw name => rfl
    | hydrated captured tree suffix => rfl

end Sql.Backend.IsMute

/-- **The captured text is always there.** If the backend renders nothing, the dehydrated tree is the one tree
with the skeleton of the tree in which every hydrated leaf has gone back to the text it was captured with, in
its mode, and every raw one is as it was. -/
theorem dehydration_falls_back_to_the_captured_text (hmute : b.IsMute) (t t' : ParseTree) :
    t' = t.dehydrate b ↔
      t'.skeleton = t.skeleton ∧ t'.slots = t.slots.map fun x => (x.1, x.2.recaptured) := by
  have hskeleton : (t.dehydrate b).skeleton = t.skeleton := ParseTree.skeleton_mapSlots _ t
  have hslots : (t.dehydrate b).slots = t.slots.map fun x => (x.1, x.2.recaptured) := by
    rw [ParseTree.dehydrate, ParseTree.slots_mapSlots]
    exact List.map_congr_left fun x _ => hmute.dehydrator_slot x
  constructor
  · rintro rfl
    exact ⟨hskeleton, hslots⟩
  · rintro ⟨hskeleton', hslots'⟩
    exact ParseTree.eq_of_skeleton_of_slots (hskeleton'.trans hskeleton.symm) (hslots'.trans hslots.symm)

end

/-! ### Edits that cannot be rendered -/

/-- A routine with a type that keeps a suffix, an assignment and a result; the tree of the type, of a side of
the assignment and of the result are other ones than their texts say. -/
def charging (type : TypeRef) (value result : Leaf) : ParseTree :=
  [⟨[.scalar ⟨"total", 2, some type, false, false, none, none, none, 0⟩],
    ⟨3, none, [.simple 4 (.assign 0 value), .simple 5 (.ret (some result) none)], none⟩⟩]

theorem dehydration_falls_back_to_the_captured_text_charging :
    Backend.mute.IsMute ∧
      charging (.raw "app.orders%ROWTYPE") (.raw "total  :=  f(1)" .assign1) (.raw "a   +   1" .expression) =
        (charging
          (.hydrated "app.orders%ROWTYPE" (.custom [.plain "sales", .plain "orders"] []) (some "%ROWTYPE"))
          (.hydrated "total  :=  f(1)" .assign1
            (.assignment "total" "f(1)" none (some (.identifier (.plain "g")))))
          (.hydrated "a   +   1" .expression (.expression (.identifier (.plain "b"))))).dehydrate .mute :=
  ⟨Backend.isMute_mute,
    (dehydration_falls_back_to_the_captured_text Backend.isMute_mute _ _).2 ⟨rfl, rfl⟩⟩

end Routine
