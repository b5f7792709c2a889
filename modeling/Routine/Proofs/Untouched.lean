import Mathlib.Data.List.Forall2
import Routine.Proofs.Hydration
import Routine.Proofs.Outcome
import Routine.Proofs.Traversal

/-!
# Code that nobody touches keeps its bytes

A tree is hydrated, some of its parsed SQL is edited, and it is dehydrated again. The leaves that were
not edited come back with the text and the mode they started with, and nothing besides the leaves has
changed. This holds for every backend: what a backend renders shows only where somebody edited.

A tree has two parts, the slots and the rest. The rest is the tree with its leaves blanked
(`ParseTree.skeleton`), which no mapper changes (`ParseTree.skeleton_mapSlots`); what is said about the
slots is said of the lists of slots, place by place.
-/

namespace Routine

open Sql (Backend Tree)

/-! ## The two parts of a tree -/

/-- Takes everything out of every leaf. -/
def Mapper.blank : Mapper := ⟨fun _ _ => .raw "" .statement, fun _ _ => .raw ""⟩

/-- The tree without the contents of its leaves: statements, data, labels and lines. -/
def ParseTree.skeleton (t : ParseTree) : ParseTree := t.mapSlots .blank

theorem ParseTree.skeleton_mapSlots (m : Mapper) (t : ParseTree) :
    (t.mapSlots m).skeleton = t.skeleton := by
  apply mapSlots_mapSlots
  rintro ⟨p, s⟩ -
  cases s <;> rfl

namespace Slot

/-- There is nothing in the leaf but text. -/
def IsRaw : Slot → Prop
  | leaf l => l.isHydrated = false
  | type t => t.isHydrated = false

instance (s : Slot) : Decidable s.IsRaw :=
  match s with
  | leaf l => inferInstanceAs (Decidable (l.isHydrated = false))
  | type t => inferInstanceAs (Decidable (t.isHydrated = false))

/-- The leaves differ at most in their parsed trees. An assignment may gain or lose the tree of a side. -/
inductive Retreed : Slot → Slot → Prop
  | same (s : Slot) : Retreed s s
  | statement (text : String) (mode : ParseMode) (old new : Tree) :
      Retreed (.leaf (.hydrated text mode (.statement old))) (.leaf (.hydrated text mode (.statement new)))
  | expression (text : String) (mode : ParseMode) (old new : Tree) :
      Retreed (.leaf (.hydrated text mode (.expression old)))
        (.leaf (.hydrated text mode (.expression new)))
  | assignment (text : String) (mode : ParseMode) (target value : String)
      (oldTarget oldValue newTarget newValue : Option Tree) :
      Retreed (.leaf (.hydrated text mode (.assignment target value oldTarget oldValue)))
        (.leaf (.hydrated text mode (.assignment target value newTarget newValue)))
  | type (name : String) (suffix : Option String) (old new : Tree) :
      Retreed (.type (.hydrated name old suffix)) (.type (.hydrated name new suffix))

theorem Retreed.mode?_eq {s s' : Slot} (h : s.Retreed s') : s'.mode? = s.mode? := by
  cases h <;> rfl

end Slot

namespace ParseTree

/-- There is nothing in the leaves but text. -/
def IsRaw (t : ParseTree) : Prop := ∀ x ∈ t.slots, x.2.IsRaw

instance (t : ParseTree) : Decidable t.IsRaw :=
  inferInstanceAs (Decidable (∀ x ∈ t.slots, x.2.IsRaw))

/-- The second tree is the first with parsed trees replaced in leaves at the places, and nowhere else. -/
structure IsEdit (places : Path → Prop) (t t' : ParseTree) : Prop where
  skeleton_eq : t'.skeleton = t.skeleton
  leaves : List.Forall₂ (fun x x' => x'.1 = x.1 ∧ x.2.Retreed x'.2 ∧ (¬ places x.1 → x'.2 = x.2))
    t.slots t'.slots

/-- The trees are equal but for the texts of leaves at the places. -/
structure AgreesOutside (places : Path → Prop) (t t' : ParseTree) : Prop where
  skeleton_eq : t'.skeleton = t.skeleton
  leaves : List.Forall₂
    (fun x x' => x'.1 = x.1 ∧ x'.2.mode? = x.2.mode? ∧ (¬ places x.1 → x'.2 = x.2)) t.slots t'.slots

end ParseTree

/-! ## Hydrating and dehydrating -/

section

variable {b : Backend} {o : HydrateOptions}

theorem Leaf.dehydrate_hydrateLeaf (path : Path) (text : String) (mode : ParseMode) :
    (hydrateLeaf b o path (.raw text mode)).value.dehydrate b = .raw text mode := by
  obtain ⟨c, hvalue, hfresh⟩ := hydrateLeaf_raw_fresh (b := b) (o := o) path text mode
  rw [hvalue, Leaf.dehydrate, Leaf.text, hfresh.text_eq, Leaf.mode]

theorem TypeRef.dehydrate_hydrateType (path : Path) (name : String) :
    (hydrateType b o path (.raw name)).value.dehydrate b = .raw name := by
  rw [TypeRef.dehydrate, (hydrateType_raw_fresh (b := b) (o := o) path name).text_eq]

/-- Dehydration takes a raw leaf back to what it was before hydration. -/
theorem dehydrator_slot_hydrator_slot {x : Placed} (h : x.2.IsRaw) :
    (dehydrator b).slot ((hydrator b o).slot x) = x := by
  obtain ⟨p, s⟩ := x
  cases s with
  | leaf l =>
    cases l with
    | raw text mode => exact congrArg (fun l => (p, Slot.leaf l)) (Leaf.dehydrate_hydrateLeaf p text mode)
    | hydrated captured mode content => cases h
  | type t =>
    cases t with
    | raw name => exact congrArg (fun t => (p, Slot.type t)) (TypeRef.dehydrate_hydrateType p name)
    | hydrated captured tree suffix => cases h

theorem Mapper.mode?_dehydrator (x : Placed) : ((dehydrator b).slot x).2.mode? = x.2.mode? := by
  obtain ⟨p, s⟩ := x
  cases s <;> rfl

/-- A raw tree comes back from hydration unchanged, also when leaves were reported. -/
theorem ParseTree.dehydrate_of_hydrate {s : ParseTree} {r : Outcome ParseTree} (hraw : s.IsRaw)
    (h : s.hydrate b o = .ok r) : r.value.dehydrate b = s := by
  have hfuses : (hydrator b o).Fuses (dehydrator b) .keep s.slots := by
    intro x hx
    rw [Mapper.slot_keep, dehydrator_slot_hydrator_slot (hraw x hx)]
  rw [hydrate_value h, dehydrate, mapSlots_mapSlots hfuses, mapSlots_keep]

/-- Dehydration changes the texts of no leaves but those that an edit touched. -/
theorem ParseTree.IsEdit.dehydrate {places : Path → Prop} {t t' : ParseTree} (h : t.IsEdit places t') :
    (t.dehydrate b).AgreesOutside places (t'.dehydrate b) where
  skeleton_eq := by
    rw [ParseTree.dehydrate, ParseTree.dehydrate, skeleton_mapSlots, skeleton_mapSlots, h.skeleton_eq]
  leaves := by
    rw [ParseTree.dehydrate, ParseTree.dehydrate, slots_mapSlots, slots_mapSlots,
      List.forall₂_map_left_iff, List.forall₂_map_right_iff]
    refine h.leaves.imp ?_
    rintro x x' ⟨hpath, htrees, hkept⟩
    -- Inside the places only the mode has to agree; outside them the leaf is the same one.
    rw [Mapper.slot_fst, Mapper.slot_fst, Mapper.mode?_dehydrator, Mapper.mode?_dehydrator]
    refine ⟨hpath, htrees.mode?_eq, fun hout => ?_⟩
    have heq : x' = x := Prod.ext hpath (hkept hout)
    rw [heq]

/-- **Untouched code keeps its bytes.** Hydrate a raw tree, replace parsed trees in any set of leaves, and
dehydrate: every other leaf has its text and its mode again, and statements, data, labels and lines
are those of the tree. With nothing replaced it is the tree. -/
theorem untouched_code_keeps_its_bytes {s : ParseTree} {r : Outcome ParseTree} (hraw : s.IsRaw)
    (h : s.hydrate b o = .ok r) :
    r.value.dehydrate b = s ∧
      ∀ (places : Path → Prop) (t : ParseTree), r.value.IsEdit places t →
        s.AgreesOutside places (t.dehydrate b) := by
  have hback : r.value.dehydrate b = s := ParseTree.dehydrate_of_hydrate hraw h
  refine ⟨hback, fun places t hedit => ?_⟩
  have hagree : (r.value.dehydrate b).AgreesOutside places (t.dehydrate b) := hedit.dehydrate
  rwa [hback] at hagree

end

/-! ### A tree with a leaf that does not parse and a leaf that is edited -/

/-- A variable with a qualified type, a statement that a backend may refuse, and a result. -/
def orderTotal : ParseTree :=
  [⟨[.scalar ⟨"total", 2, some (.raw "app.money"), false, false, some (.raw "0" .expression), none, none, 0⟩],
    ⟨3, none,
      [.simple 4 (.perform (.raw "SELECT !!" .statement)),
        .simple 5 (.ret (some (.raw "total" .expression)) none)], none⟩⟩]

/-- The same tree hydrated, with another name in the result. -/
def orderTotalEdited : ParseTree :=
  [⟨[.scalar ⟨"total", 2, some (.hydrated "app.money" (.custom [.plain "app.money"] []) none), false, false,
      some (.hydrated "0" .expression (.expression (.identifier (.plain "0")))), none, none, 0⟩],
    ⟨3, none,
      [.simple 4 (.perform (.hydrated "SELECT !!" .statement .raw)),
        .simple 5 (.ret
          (some (.hydrated "total" .expression (.expression (.identifier (.plain "amount"))))) none)], none⟩⟩]

/-- The place of the result. -/
def orderTotalResult : Path :=
  [.item "functions" 0, .member "action", .item "body" 1, .member "expr"]

theorem untouched_code_keeps_its_bytes_orderTotal :
    ∃ r, orderTotal.hydrate .echo {} = .ok r ∧ r.errors.length = 1 ∧
      r.value.dehydrate .echo = orderTotal ∧
      orderTotal.AgreesOutside (· = orderTotalResult) (orderTotalEdited.dehydrate .echo) := by
  refine ⟨_, rfl, rfl, ?_⟩
  obtain ⟨hback, hedits⟩ :=
    untouched_code_keeps_its_bytes (b := .echo) (o := {}) (s := orderTotal) (by decide) rfl
  refine ⟨hback, hedits (· = orderTotalResult) orderTotalEdited ⟨rfl, ?_⟩⟩
  refine .cons ⟨rfl, .same _, fun _ => rfl⟩ (.cons ⟨rfl, .same _, fun _ => rfl⟩
    (.cons ⟨rfl, .same _, fun _ => rfl⟩ (.cons ⟨rfl, ?_, fun hout => absurd rfl hout⟩ .nil)))
  exact .expression "total" .expression _ _

end Routine
