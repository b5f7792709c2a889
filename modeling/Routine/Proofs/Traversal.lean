import Routine.Slot

/-!
# Laws of mapping leaves

`mapSlots` (`Routine/Slot.lean`) visits every leaf of a tree and changes nothing else. Two laws say so,
and everything that is proved about hydrating, editing and dehydrating whole trees goes through them:

* **fusion** (`ParseTree.mapSlots_mapSlots`): mapping twice is mapping once, with what the two mappers do
  to a leaf one after the other;
* **identity** (`ParseTree.mapSlots_of_fixed`): a mapper that leaves the slots of a tree alone leaves the
  tree alone.

Fusion is stated on the slots of the one tree rather than on the mappers: two mappers need to agree
only where the tree has a leaf. So `ParseTree.mapSlots_congr`, which compares two mappers on a tree, is
fusion after the identity and needs no induction of its own.
-/

namespace Routine

namespace Mapper

/-- Leaves every leaf as it is. -/
def keep : Mapper := ⟨fun _ l => l, fun _ t => t⟩

@[simp]
theorem slot_keep (x : Placed) : keep.slot x = x := by
  obtain ⟨p, s⟩ := x
  cases s <;> rfl

theorem slot_fst (m : Mapper) (x : Placed) : (m.slot x).1 = x.1 := by
  obtain ⟨p, s⟩ := x
  cases s <;> rfl

/-- The second mapper after the first does to the slots what the third does. -/
def Fuses (first second whole : Mapper) (slots : List Placed) : Prop :=
  ∀ x ∈ slots, second.slot (first.slot x) = whole.slot x

section

variable {m₁ m₂ m₃ : Mapper}

@[simp]
theorem fuses_nil : Fuses m₁ m₂ m₃ [] := by
  intro x hx
  cases hx

@[simp]
theorem fuses_append {xs ys : List Placed} :
    Fuses m₁ m₂ m₃ (xs ++ ys) ↔ Fuses m₁ m₂ m₃ xs ∧ Fuses m₁ m₂ m₃ ys :=
  List.forall_mem_append

@[simp]
theorem fuses_cons_leaf {p : Path} {l : Leaf} {xs : List Placed} :
    Fuses m₁ m₂ m₃ ((p, .leaf l) :: xs) ↔
      m₂.leaf p (m₁.leaf p l) = m₃.leaf p l ∧ Fuses m₁ m₂ m₃ xs := by
  simp [Fuses, slot]

@[simp]
theorem fuses_cons_type {p : Path} {t : TypeRef} {xs : List Placed} :
    Fuses m₁ m₂ m₃ ((p, .type t) :: xs) ↔
      m₂.type p (m₁.type p t) = m₃.type p t ∧ Fuses m₁ m₂ m₃ xs := by
  simp [Fuses, slot]

/-! ## One leaf, and lists of leaves

For these the law is an equivalence: what the mappers do to the slots is what they do to the leaves. -/

@[simp]
theorem fuses_leafSlot {p : Path} {name : String} {l : Leaf} :
    Fuses m₁ m₂ m₃ (leafSlot p name l) ↔ m₂.under p name (m₁.under p name l) = m₃.under p name l := by
  simp [leafSlot, under]

@[simp]
theorem fuses_leafSlot? {p : Path} {name : String} {l : Option Leaf} :
    Fuses m₁ m₂ m₃ (leafSlot? p name l) ↔
      m₂.under? p name (m₁.under? p name l) = m₃.under? p name l := by
  cases l with
  | none => simp [leafSlot?, under?]
  | some l => simp [leafSlot?, under?]

@[simp]
theorem fuses_typeSlot? {p : Path} {name : String} {t : Option TypeRef} :
    Fuses m₁ m₂ m₃ (typeSlot? p name t) ↔
      m₂.typeUnder? p name (m₁.typeUnder? p name t) = m₃.typeUnder? p name t := by
  cases t with
  | none => simp [typeSlot?, typeUnder?]
  | some t => simp [typeSlot?, typeUnder?]

@[simp]
theorem fuses_itemSlots {p : Path} {name : String} {i : Nat} {ls : List Leaf} :
    Fuses m₁ m₂ m₃ (itemSlots p name i ls) ↔
      m₂.items p name i (m₁.items p name i ls) = m₃.items p name i ls := by
  induction ls generalizing i with
  | nil => simp [itemSlots, items]
  | cons l ls ih => simp [itemSlots, items, ih]

@[simp]
theorem fuses_optionSlots {p : Path} {i : Nat} {os : List RaiseOption} :
    Fuses m₁ m₂ m₃ (optionSlots p i os) ↔
      m₂.options p i (m₁.options p i os) = m₃.options p i os := by
  induction os generalizing i with
  | nil => simp [optionSlots, options]
  | cons o os ih => simp [optionSlots, options, ih]

end
end Mapper

open Mapper

/-! ## Fusion -/

section

variable {m₁ m₂ m₃ : Mapper}

theorem Simple.mapSlots_mapSlots {p : Path} {s : Simple} (h : Fuses m₁ m₂ m₃ (s.slots p)) :
    (s.mapSlots m₁ p).mapSlots m₂ p = s.mapSlots m₃ p := by
  cases s <;>
    simp_all [Simple.slots, Simple.mapSlots]

theorem LoopHead.mapSlots_mapSlots {p : Path} {head : LoopHead}
    (h : Fuses m₁ m₂ m₃ (head.slots p)) :
    (head.mapSlots m₁ p).mapSlots m₂ p = head.mapSlots m₃ p := by
  cases head <;>
    simp_all [LoopHead.slots, LoopHead.mapSlots]

-- The induction is on the statements; the path is what changes on the way down, so it stays general.
mutual

theorem Stmt.mapSlots_mapSlots {p : Path} : (s : Stmt) → Fuses m₁ m₂ m₃ (s.slots p) →
    (s.mapSlots m₁ p).mapSlots m₂ p = s.mapSlots m₃ p
  | .block b, h => by
    rw [Stmt.slots] at h
    simp only [Stmt.mapSlots]
    rw [Block.mapSlots_mapSlots b h]
  | .simple _ s, h => by
    rw [Stmt.slots] at h
    simp only [Stmt.mapSlots]
    rw [Simple.mapSlots_mapSlots h]
  | .conditional _ _ body arms otherwise, h => by
    simp only [Stmt.slots, fuses_append, fuses_leafSlot] at h
    obtain ⟨⟨⟨hcondition, hbody⟩, harms⟩, hotherwise⟩ := h
    simp only [Stmt.mapSlots]
    rw [hcondition, Stmts.mapSlots_mapSlots body hbody, Arms.mapSlots_mapSlots arms harms,
      Stmts.mapSlots_mapSlots otherwise hotherwise]
  | .choice _ _ _ arms _ otherwise, h => by
    simp only [Stmt.slots, fuses_append, fuses_leafSlot?] at h
    obtain ⟨⟨hoperand, harms⟩, hotherwise⟩ := h
    simp only [Stmt.mapSlots]
    rw [hoperand, Arms.mapSlots_mapSlots arms harms,
      Stmts.mapSlots_mapSlots otherwise hotherwise]
  | .loop _ _ head body, h => by
    simp only [Stmt.slots, fuses_append] at h
    simp only [Stmt.mapSlots]
    rw [LoopHead.mapSlots_mapSlots h.1, Stmts.mapSlots_mapSlots body h.2]

theorem Stmts.mapSlots_mapSlots {p : Path} {name : String} {i : Nat} : (ss : List Stmt) →
    Fuses m₁ m₂ m₃ (Stmts.slots p name i ss) →
      Stmts.mapSlots m₂ p name i (Stmts.mapSlots m₁ p name i ss) = Stmts.mapSlots m₃ p name i ss
  | [], _ => by simp only [Stmts.mapSlots]
  | s :: ss, h => by
    rw [Stmts.slots, fuses_append] at h
    simp only [Stmts.mapSlots]
    rw [Stmt.mapSlots_mapSlots s h.1, Stmts.mapSlots_mapSlots ss h.2]

theorem Block.mapSlots_mapSlots {p : Path} : (b : Block) → Fuses m₁ m₂ m₃ (b.slots p) →
    (b.mapSlots m₁ p).mapSlots m₂ p = b.mapSlots m₃ p
  | ⟨_, _, body, handlers⟩, h => by
    rw [Block.slots, fuses_append] at h
    simp only [Block.mapSlots]
    rw [Stmts.mapSlots_mapSlots body h.1, Handlers.mapSlots?_mapSlots? handlers h.2]

theorem Handlers.mapSlots?_mapSlots? {p : Path} : (hs : Option (List Handler)) →
    Fuses m₁ m₂ m₃ (Handlers.slots? p hs) →
      Handlers.mapSlots? m₂ p (Handlers.mapSlots? m₁ p hs) = Handlers.mapSlots? m₃ p hs
  | none, _ => by simp only [Handlers.mapSlots?]
  | some hs, h => by
    rw [Handlers.slots?] at h
    simp only [Handlers.mapSlots?]
    rw [Handlers.mapSlots_mapSlots hs h]

theorem Handlers.mapSlots_mapSlots {p : Path} {i : Nat} : (hs : List Handler) →
    Fuses m₁ m₂ m₃ (Handlers.slots p i hs) →
      Handlers.mapSlots m₂ p i (Handlers.mapSlots m₁ p i hs) = Handlers.mapSlots m₃ p i hs
  | [], _ => by simp only [Handlers.mapSlots]
  | ⟨_, _, action⟩ :: hs, h => by
    rw [Handlers.slots, fuses_append] at h
    simp only [Handlers.mapSlots]
    rw [Stmts.mapSlots_mapSlots action h.1, Handlers.mapSlots_mapSlots hs h.2]

theorem Arms.mapSlots_mapSlots {p : Path} {name condition : String} {i : Nat} : (as : List Arm) →
    Fuses m₁ m₂ m₃ (Arms.slots p name condition i as) →
      Arms.mapSlots m₂ p name condition i (Arms.mapSlots m₁ p name condition i as) =
        Arms.mapSlots m₃ p name condition i as
  | [], _ => by simp only [Arms.mapSlots]
  | ⟨_, _, body⟩ :: as, h => by
    simp only [Arms.slots, fuses_append, fuses_leafSlot] at h
    obtain ⟨⟨hcondition, hbody⟩, has⟩ := h
    simp only [Arms.mapSlots]
    rw [hcondition, Stmts.mapSlots_mapSlots body hbody, Arms.mapSlots_mapSlots as has]

end

theorem Datum.mapSlots_mapSlots {p : Path} {d : Datum} (h : Fuses m₁ m₂ m₃ (d.slots p)) :
    (d.mapSlots m₁ p).mapSlots m₂ p = d.mapSlots m₃ p := by
  cases d with
  | scalar v =>
    simp only [Datum.slots, fuses_append, fuses_typeSlot?, fuses_leafSlot?] at h
    obtain ⟨⟨htype, hinitial⟩, hquery⟩ := h
    simp only [Datum.mapSlots]
    rw [htype, hinitial, hquery]
  | record r =>
    rw [Datum.slots, fuses_typeSlot?] at h
    simp only [Datum.mapSlots]
    rw [h]
  | row r => rfl
  | field f => rfl

theorem Data.mapSlots_mapSlots {p : Path} {ds : List Datum} {i : Nat}
    (h : Fuses m₁ m₂ m₃ (Data.slots p i ds)) :
    Data.mapSlots m₂ p i (Data.mapSlots m₁ p i ds) = Data.mapSlots m₃ p i ds := by
  induction ds generalizing i with
  | nil => rfl
  | cons d ds ih =>
    rw [Data.slots, fuses_append] at h
    simp only [Data.mapSlots]
    rw [Datum.mapSlots_mapSlots h.1, ih h.2]

theorem Function.mapSlots_mapSlots {i : Nat} {f : Function} (h : Fuses m₁ m₂ m₃ (f.slots i)) :
    (f.mapSlots m₁ i).mapSlots m₂ i = f.mapSlots m₃ i := by
  rw [Function.slots, fuses_append] at h
  simp only [Function.mapSlots]
  rw [Data.mapSlots_mapSlots h.1, Block.mapSlots_mapSlots f.action h.2]

theorem ParseTree.mapSlotsFrom_mapSlotsFrom {t : ParseTree} {i : Nat}
    (h : Fuses m₁ m₂ m₃ (slotsFrom i t)) :
    mapSlotsFrom m₂ i (mapSlotsFrom m₁ i t) = mapSlotsFrom m₃ i t := by
  induction t generalizing i with
  | nil => rfl
  | cons f fs ih =>
    rw [slotsFrom, fuses_append] at h
    simp only [mapSlotsFrom]
    rw [Function.mapSlots_mapSlots h.1, ih h.2]

/-- **Fusion.** Mapping twice is mapping once, if the one mapper does to the slots of the tree what the
two do after one another. -/
theorem ParseTree.mapSlots_mapSlots {t : ParseTree} (h : Fuses m₁ m₂ m₃ t.slots) :
    (t.mapSlots m₁).mapSlots m₂ = t.mapSlots m₃ :=
  mapSlotsFrom_mapSlotsFrom h

end

/-! ## Identity -/

namespace Mapper

@[simp]
theorem leaf_keep (p : Path) (l : Leaf) : keep.leaf p l = l := rfl

@[simp]
theorem under_keep (p : Path) (name : String) (l : Leaf) : keep.under p name l = l := rfl

@[simp]
theorem under?_keep (p : Path) (name : String) (l : Option Leaf) : keep.under? p name l = l := by
  cases l <;> rfl

@[simp]
theorem typeUnder?_keep (p : Path) (name : String) (t : Option TypeRef) :
    keep.typeUnder? p name t = t := by
  cases t <;> rfl

@[simp]
theorem items_keep (p : Path) (name : String) (i : Nat) (ls : List Leaf) :
    keep.items p name i ls = ls := by
  induction ls generalizing i with
  | nil => rfl
  | cons l ls ih => simp [items, ih]

@[simp]
theorem options_keep (p : Path) (i : Nat) (os : List RaiseOption) : keep.options p i os = os := by
  induction os generalizing i with
  | nil => rfl
  | cons o os ih => simp [options, ih]

end Mapper

@[simp]
theorem Simple.mapSlots_keep (p : Path) (s : Simple) : s.mapSlots keep p = s := by
  cases s <;> simp [Simple.mapSlots]

@[simp]
theorem LoopHead.mapSlots_keep (p : Path) (head : LoopHead) : head.mapSlots keep p = head := by
  cases head <;> simp [LoopHead.mapSlots]

mutual

theorem Stmt.mapSlots_keep (p : Path) : (s : Stmt) → s.mapSlots keep p = s
  | .block b => by rw [Stmt.mapSlots, Block.mapSlots_keep p b]
  | .simple _ s => by rw [Stmt.mapSlots, Simple.mapSlots_keep]
  | .conditional _ _ body arms otherwise => by
    rw [Stmt.mapSlots, under_keep, Stmts.mapSlots_keep p _ _ body, Arms.mapSlots_keep p _ _ _ arms,
      Stmts.mapSlots_keep p _ _ otherwise]
  | .choice _ _ _ arms _ otherwise => by
    rw [Stmt.mapSlots, under?_keep, Arms.mapSlots_keep p _ _ _ arms,
      Stmts.mapSlots_keep p _ _ otherwise]
  | .loop _ _ head body => by
    rw [Stmt.mapSlots, LoopHead.mapSlots_keep, Stmts.mapSlots_keep p _ _ body]

theorem Stmts.mapSlots_keep (p : Path) (name : String) (i : Nat) : (ss : List Stmt) →
    Stmts.mapSlots keep p name i ss = ss
  | [] => by rw [Stmts.mapSlots]
  | s :: ss => by rw [Stmts.mapSlots, Stmt.mapSlots_keep _ s, Stmts.mapSlots_keep p name (i + 1) ss]

theorem Block.mapSlots_keep (p : Path) : (b : Block) → b.mapSlots keep p = b
  | ⟨_, _, body, handlers⟩ => by
    rw [Block.mapSlots, Stmts.mapSlots_keep p _ _ body, Handlers.mapSlots?_keep p handlers]

theorem Handlers.mapSlots?_keep (p : Path) : (hs : Option (List Handler)) →
    Handlers.mapSlots? keep p hs = hs
  | none => by rw [Handlers.mapSlots?]
  | some hs => by rw [Handlers.mapSlots?, Handlers.mapSlots_keep _ 0 hs]

theorem Handlers.mapSlots_keep (p : Path) (i : Nat) : (hs : List Handler) →
    Handlers.mapSlots keep p i hs = hs
  | [] => by rw [Handlers.mapSlots]
  | ⟨_, _, action⟩ :: hs => by
    rw [Handlers.mapSlots, Stmts.mapSlots_keep _ _ _ action, Handlers.mapSlots_keep p (i + 1) hs]

theorem Arms.mapSlots_keep (p : Path) (name condition : String) (i : Nat) : (as : List Arm) →
    Arms.mapSlots keep p name condition i as = as
  | [] => by rw [Arms.mapSlots]
  | ⟨_, _, body⟩ :: as => by
    rw [Arms.mapSlots, under_keep, Stmts.mapSlots_keep _ _ _ body,
      Arms.mapSlots_keep p name condition (i + 1) as]

end

theorem Datum.mapSlots_keep (p : Path) (d : Datum) : d.mapSlots keep p = d := by
  cases d <;> simp [Datum.mapSlots]

theorem Data.mapSlots_keep (p : Path) (i : Nat) (ds : List Datum) : Data.mapSlots keep p i ds = ds := by
  induction ds generalizing i with
  | nil => rfl
  | cons d ds ih => rw [Data.mapSlots, Datum.mapSlots_keep, ih]

theorem Function.mapSlots_keep (i : Nat) (f : Function) : f.mapSlots keep i = f := by
  rw [Function.mapSlots, Data.mapSlots_keep, Block.mapSlots_keep]

theorem ParseTree.mapSlotsFrom_keep (t : ParseTree) (i : Nat) : mapSlotsFrom keep i t = t := by
  induction t generalizing i with
  | nil => rfl
  | cons f fs ih => rw [mapSlotsFrom, Function.mapSlots_keep, ih]

/-! ## Trees -/

namespace ParseTree

variable {m m' : Mapper} {t : ParseTree}

theorem slotsFrom_mapSlotsFrom (m : Mapper) (t : ParseTree) (i : Nat) :
    slotsFrom i (mapSlotsFrom m i t) = (slotsFrom i t).map m.slot := by
  induction t generalizing i with
  | nil => rfl
  | cons f fs ih =>
    rw [mapSlotsFrom, slotsFrom, slotsFrom, Function.slots_mapSlots, ih, List.map_append]

/-- The slots of a mapped tree are the mapped slots. -/
theorem slots_mapSlots (m : Mapper) (t : ParseTree) : (t.mapSlots m).slots = t.slots.map m.slot :=
  slotsFrom_mapSlotsFrom m t 0

theorem mapSlots_keep (t : ParseTree) : t.mapSlots keep = t :=
  mapSlotsFrom_keep t 0

/-- Two mappers that agree on the slots of a tree make the same tree of it. -/
theorem mapSlots_congr (h : ∀ x ∈ t.slots, m.slot x = m'.slot x) : t.mapSlots m = t.mapSlots m' := by
  have hfuses : Fuses keep m m' t.slots := by
    intro x hx
    rw [slot_keep, h x hx]
  have hfusion := mapSlots_mapSlots hfuses
  rwa [mapSlots_keep] at hfusion

/-- **Identity.** A mapper that leaves the slots of a tree alone leaves the tree alone. -/
theorem mapSlots_of_fixed (h : ∀ x ∈ t.slots, m.slot x = x) : t.mapSlots m = t := by
  have hkeep : ∀ x ∈ t.slots, m.slot x = keep.slot x := by
    intro x hx
    rw [slot_keep, h x hx]
  rw [mapSlots_congr hkeep, mapSlots_keep]

end ParseTree
end Routine
