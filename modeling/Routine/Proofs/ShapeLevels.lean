import Routine.Proofs.Alike

/-!
# Levels of shapes

Statements and parsed SQL have shapes of some number of levels. A tree is written with the levels that it
has, and read with the levels that text can have. These are two shapes, but on values that are less deep
in JSON than the levels of the second they are one: `Shape.Refines k` says that what the first shape writes
at a depth below `k`, the second writes too and can read back.

Refinement goes through every way of putting shapes together, and through a tag it gains a level. So shapes
that are alike refine each other (`Shape.Alike.refines`), the shapes of all levels do so below their levels
(`Sql.Tree.shape_refines`, `ParseTree.shape_refines`), and nothing has to be known about the levels of a tree.
-/

namespace Routine

variable {α β σ : Type}

/-- What the first shape writes less than `k` deep, the second writes too and can read back. -/
def Shape.Refines (k : Nat) (s s' : Shape α) : Prop :=
  ∀ a, s.Faithful a → (s.write a).depth < k → s'.Faithful a ∧ s'.write a = s.write a

/-- The same of the members of records, by name and in order. -/
structure Fields.Refines (k : Nat) (f f' : Fields α σ) : Prop where
  names : f'.names = f.names
  members : ∀ a, f.Faithful a → Json.depthMembers (f.writeMembers a) < k →
    f'.Faithful a ∧ f'.writeMembers a = f.writeMembers a
  items : ∀ a, f.FaithfulItems a → Json.depthItems (f.writeItems a) < k →
    f'.FaithfulItems a ∧ f'.writeItems a = f.writeItems a

/-- The same of families. -/
structure Variants.Refines (k : Nat) (v v' : Variants α) : Prop where
  tags : v'.tags = v.tags
  value : ∀ a, v.Faithful a → (v.write a).depth < k → v'.Faithful a ∧ v'.write a = v.write a

namespace Shape.Refines

variable {k : Nat}

theorem refl (s : Shape α) : s.Refines k s := fun _ h _ => ⟨h, rfl⟩

theorem mono {j : Nat} (hjk : j ≤ k) {s s' : Shape α} (h : s.Refines k s') : s.Refines j s' :=
  fun a ha hdepth => h a ha (Nat.lt_of_lt_of_le hdepth hjk)

theorem option {item item' : Shape α} (h : item.Refines k item') :
    (Shape.option item).Refines k (.option item') := by
  intro value hvalue hdepth
  cases value with
  | none =>
    refine ⟨?_, rfl⟩
    intro a ha
    cases ha
  | some a =>
    obtain ⟨ha, hnull⟩ := hvalue a rfl
    obtain ⟨ha', hwrite⟩ := h a ha hdepth
    refine ⟨?_, hwrite⟩
    intro b hb
    obtain rfl := Option.some.inj hb
    exact ⟨ha', hwrite ▸ hnull⟩

theorem list {item item' : Shape α} (h : item.Refines k item') :
    (Shape.list item).Refines k (.list item') := by
  intro as has hdepth
  have hitem : ∀ a ∈ as, item'.Faithful a ∧ item'.write a = item.write a := by
    intro a ha
    have hle : (item.write a).depth ≤ Json.depthItems (as.map item.write) :=
      Json.depth_le_depthItems (List.mem_map_of_mem ha)
    rw [Shape.write, Json.depth] at hdepth
    exact h a (has a ha) (by omega)
  refine ⟨fun a ha => (hitem a ha).1, ?_⟩
  rw [Shape.write, Shape.write, List.map_congr_left fun a ha => (hitem a ha).2]

theorem record {title : String} {f f' : Fields α σ} (h : f.Refines k f') :
    (Shape.record title f).Refines k (.record title f') := by
  intro a ha hdepth
  rw [Shape.write, Json.depth] at hdepth
  obtain ⟨ha', hwrite⟩ := h.members a ha.2 (by omega)
  refine ⟨⟨h.names ▸ ha.1, ha'⟩, ?_⟩
  rw [Shape.write, Shape.write, hwrite]

theorem tagged {tag : String} {item item' : Shape α} (h : item.Refines k item') :
    (Shape.tagged tag item).Refines (k + 1) (.tagged tag item') := by
  intro a ha hdepth
  rw [Shape.write, Json.depth, Json.depthMembers, Json.depthMembers, Nat.max_zero] at hdepth
  obtain ⟨ha', hwrite⟩ := h a ha (by omega)
  refine ⟨ha', ?_⟩
  rw [Shape.write, Shape.write, hwrite]

theorem choice {v v' : Variants α} (h : v.Refines k v') :
    (Shape.choice v).Refines k (.choice v') := by
  intro a ha hdepth
  obtain ⟨ha', hwrite⟩ := h.value a ha.2 hdepth
  exact ⟨⟨h.tags ▸ ha.1, ha'⟩, hwrite⟩

theorem convert {read : α → Except String β} {back : β → α} {item item' : Shape α}
    (h : item.Refines k item') : (Shape.convert read back item).Refines k (.convert read back item') := by
  intro b hb hdepth
  obtain ⟨hb', hwrite⟩ := h (back b) hb.2 hdepth
  exact ⟨⟨hb.1, hb'⟩, hwrite⟩

end Shape.Refines

namespace Fields.Refines

variable {k : Nat}

theorem nil : Fields.Refines k .nil .nil :=
  ⟨rfl, fun _ h _ => ⟨h, rfl⟩, fun _ h _ => ⟨h, rfl⟩⟩

theorem cons {name : String} {item item' : Shape α} {whenAbsent whenShort : Option α} {isHidden : α → Bool}
    {rest rest' : Fields β σ} (hitem : item.Refines k item') (hrest : rest.Refines k rest') :
    (Fields.cons name item whenAbsent whenShort isHidden rest).Refines k
      (.cons name item' whenAbsent whenShort isHidden rest') where
  names := by rw [Fields.names, Fields.names, hrest.names]
  members := by
    rintro ⟨a, b⟩ h hdepth
    rw [Fields.Faithful] at h
    rw [Fields.writeMembers] at hdepth
    rw [Fields.Faithful, Fields.writeMembers, Fields.writeMembers]
    cases hhidden : isHidden a with
    | true =>
      simp only [hhidden, if_true] at h hdepth ⊢
      obtain ⟨hb, hwrite⟩ := hrest.members b h.2 hdepth
      exact ⟨⟨h.1, hb⟩, hwrite⟩
    | false =>
      simp only [hhidden, Bool.false_eq_true, if_false] at h hdepth ⊢
      rw [Json.depthMembers, Nat.max_lt] at hdepth
      obtain ⟨ha, hwrite⟩ := hitem a h.1 hdepth.1
      obtain ⟨hb, hwrites⟩ := hrest.members b h.2 hdepth.2
      exact ⟨⟨ha, hb⟩, by rw [hwrite, hwrites]⟩
  items := by
    rintro ⟨a, b⟩ h hdepth
    rw [Fields.FaithfulItems] at h ⊢
    rw [Fields.writeItems, Json.depthItems, Nat.max_lt] at hdepth
    rw [Fields.writeItems, Fields.writeItems]
    obtain ⟨ha, hwrite⟩ := hitem a h.1 hdepth.1
    obtain ⟨hb, hwrites⟩ := hrest.items b h.2 hdepth.2
    exact ⟨⟨ha, hb⟩, by rw [hwrite, hwrites]⟩

end Fields.Refines

namespace Variants.Refines

variable {k : Nat}

theorem refl (v : Variants α) : v.Refines k v := ⟨rfl, fun _ h _ => ⟨h, rfl⟩⟩

theorem bare {tag : String} {this : α} {isThis : α → Bool} {rest rest' : Variants α}
    (hrest : rest.Refines k rest') :
    (Variants.bare tag this isThis rest).Refines k (.bare tag this isThis rest') where
  tags := by rw [Variants.tags, Variants.tags, hrest.tags]
  value := by
    intro a h hdepth
    rw [Variants.Faithful] at h ⊢
    rw [Variants.write] at hdepth
    rw [Variants.write, Variants.write]
    cases hthis : isThis a with
    | true => exact ⟨by simpa [hthis] using h, rfl⟩
    | false =>
      simp only [hthis, Bool.false_eq_true, if_false] at h hdepth ⊢
      exact hrest.value a h hdepth

theorem holding {tag : String} {item item' : Shape β} {inject : β → α} {project : α → Option β}
    {rest rest' : Variants α} (hitem : item.Refines k item') (hrest : rest.Refines (k + 1) rest') :
    (Variants.holding tag item inject project rest).Refines (k + 1)
      (.holding tag item' inject project rest') where
  tags := by rw [Variants.tags, Variants.tags, hrest.tags]
  value := by
    intro a h hdepth
    rw [Variants.Faithful] at h ⊢
    rw [Variants.write] at hdepth
    rw [Variants.write, Variants.write]
    cases hproject : project a with
    | none =>
      simp only [hproject] at h hdepth ⊢
      exact hrest.value a h hdepth
    | some b =>
      simp only [hproject] at h hdepth ⊢
      rw [Json.depth, Json.depthMembers, Json.depthMembers, Nat.max_zero] at hdepth
      obtain ⟨hb, hwrite⟩ := hitem b h.2 (by omega)
      exact ⟨⟨h.1, hb⟩, by rw [hwrite]⟩

theorem named {tag title : String} {f f' : Fields β σ} {inject : β → α} {project : α → Option β}
    {rest rest' : Variants α} (hf : f.Refines k f') (hrest : rest.Refines (k + 1) rest') :
    (Variants.named tag title f inject project rest).Refines (k + 1)
      (.named tag title f' inject project rest') where
  tags := by rw [Variants.tags, Variants.tags, hrest.tags]
  value := by
    intro a h hdepth
    rw [Variants.Faithful] at h ⊢
    rw [Variants.write] at hdepth
    rw [Variants.write, Variants.write]
    cases hproject : project a with
    | none =>
      simp only [hproject] at h hdepth ⊢
      exact hrest.value a h hdepth
    | some b =>
      simp only [hproject] at h hdepth ⊢
      rw [Json.depth, Json.depthMembers, Json.depthMembers, Nat.max_zero, Json.depth] at hdepth
      obtain ⟨hb, hwrite⟩ := hf.members b h.2.2 (by omega)
      exact ⟨⟨h.1, hf.names ▸ h.2.1, hb⟩, by rw [hwrite]⟩

theorem positional {tag title : String} {f f' : Fields β σ} {inject : β → α} {project : α → Option β}
    {rest rest' : Variants α} (hf : f.Refines k f') (hrest : rest.Refines (k + 1) rest') :
    (Variants.positional tag title f inject project rest).Refines (k + 1)
      (.positional tag title f' inject project rest') where
  tags := by rw [Variants.tags, Variants.tags, hrest.tags]
  value := by
    intro a h hdepth
    rw [Variants.Faithful] at h ⊢
    rw [Variants.write] at hdepth
    rw [Variants.write, Variants.write]
    cases hproject : project a with
    | none =>
      simp only [hproject] at h hdepth ⊢
      exact hrest.value a h hdepth
    | some b =>
      simp only [hproject] at h hdepth ⊢
      rw [Json.depth, Json.depthMembers, Json.depthMembers, Nat.max_zero, Json.depth] at hdepth
      obtain ⟨hb, hwrite⟩ := hf.items b h.2 (by omega)
      exact ⟨⟨h.1, hb⟩, by rw [hwrite]⟩

end Variants.Refines

/-! ## Shapes that are alike -/

/-- At every depth, what the first shape writes, the second writes too and can read back. -/
def Shape.RefinesAlways (α : Type) (s s' : Shape α) : Prop := ∀ k, s.Refines k s'

mutual

/-- **Of two shapes that are alike, the second writes what the first does**, as far down as they are compared. -/
theorem Shape.Alike.refines : {k : Nat} → {α : Type} → {s s' : Shape α} →
    Shape.Alike Shape.RefinesAlways k s s' → s.Refines k s'
  | _, _, _, _, .deep => fun _ _ hdepth => absurd hdepth (Nat.not_lt_zero _)
  | _, _, _, _, .weaken hjk h => h.refines.mono hjk
  | k, _, _, _, .given h => h k
  | _, _, _, _, .exhausted => fun _ ha => ha.elim
  | _, _, _, _, .int32 => .refl _
  | _, _, _, _, .int64 => .refl _
  | _, _, _, _, .natural => .refl _
  | _, _, _, _, .bool => .refl _
  | _, _, _, _, .string => .refl _
  | _, _, _, _, .character => .refl _
  | _, _, _, _, .option h => .option h.refines
  | _, _, _, _, .list h => .list h.refines
  | _, _, _, _, .record h => .record h.refines
  | _, _, _, _, .tagged h => .tagged h.refines
  | _, _, _, _, .choice h => .choice h.refines
  | _, _, _, _, .convert _ h => .convert h.refines
  | _, _, _, _, .either _ => .refl _
  | _, _, _, _, .word _ => .refl _

theorem Fields.Alike.refines : {k : Nat} → {α σ : Type} → {f f' : Fields α σ} →
    Fields.Alike Shape.RefinesAlways k f f' → f.Refines k f'
  | _, _, _, _, _, .nil => .nil
  | _, _, _, _, _, .cons hitem hrest => .cons hitem.refines hrest.refines

theorem Variants.Alike.refines : {k : Nat} → {α : Type} → {v v' : Variants α} →
    Variants.Alike Shape.RefinesAlways k v v' → v.Refines (k + 1) v'
  | _, _, _, _, .nil => .refl _
  | _, _, _, _, .bare hrest => .bare hrest.refines
  | _, _, _, _, .holding hitem hrest => .holding hitem.refines hrest.refines
  | _, _, _, _, .named hf hrest => .named hf.refines hrest.refines
  | _, _, _, _, .positional _ hf hrest => .positional hf.refines hrest.refines

end

/-- On trees that are less than `k` deep in JSON, all shapes agree with that of level `k`. -/
theorem Sql.Tree.shape_refines (k level : Nat) : (shape level).Refines k (shape k) :=
  (shape_alike (.inr (Nat.le_refl k))).refines

/-- **On what is less than `k` deep in JSON, all shapes of parse trees agree with that of `k` levels**, whatever
the codecs are. -/
theorem ParseTree.shape_refines (sql : Sql.Codecs) (k levels : Nat) :
    (shape sql levels).Refines k (shape sql k) := by
  have hsql : sql.Given Shape.RefinesAlways := ⟨fun _ => .refl _, fun _ => .refl _, fun _ => .refl _⟩
  exact (shape_alike hsql (.inr (Nat.le_refl k))).refines.mono (Nat.le_succ k)

end Routine
