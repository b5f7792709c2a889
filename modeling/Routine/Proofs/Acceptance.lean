import Routine.Proofs.Agreement
import Routine.Proofs.Canonical
import Routine.Proofs.RoundTrip
import Routine.Proofs.Untouched

/-!
# What is encoded is accepted

A value that a tree is encoded as is decoded, whatever the leaves of the tree (`ParseTree.takes_toValue`). This
is not read off the round trip through text. A value comes with its members in the order of their names, and a
leaf may have a mode that is not read back as it was: one without a name, but with the code of one that has a
name.

So acceptance is proved apart from what is decoded. `Fields.Ready` says when members are accepted in any
order, and is kept by every member that is set. That values may be hidden, or be under a tag, is known from the
shape that is faithful to them, which need not be the one that decodes.
-/

namespace Routine

open Json (Complaint)

/-- Something is decoded from the value. -/
def Shape.Takes {α : Type} (s : Shape α) (v : Json) : Prop := ∃ a, s.ofJson v = .ok a

/-! ## Members in any order -/

namespace Fields

/-- The members are all accepted, each field at most once, and none is missed. -/
def Ready : {α σ : Type} → Fields α σ → List (String × Json) → σ → Prop
  | _, _, .nil, _, _ => True
  | _, _, .cons name item whenAbsent _ _ rest, ms, (x, xs) =>
    (∀ v, (name, v) ∈ ms → x = Option.none ∧ item.Takes v) ∧
      ((x <|> whenAbsent).isSome ∨ ∃ v, (name, v) ∈ ms) ∧ rest.Ready ms xs

/-- Only members that have the name of a field count, and not their order. -/
theorem Ready.congr : {α σ : Type} → {f : Fields α σ} → {ms ns : List (String × Json)} → {state : σ} →
    f.Ready ms state → (∀ m, m.1 ∈ f.names → (m ∈ ms ↔ m ∈ ns)) → f.Ready ns state
  | _, _, .nil, _, _, _, _, _ => trivial
  | _, _, .cons name item whenAbsent _ _ rest, ms, ns, (x, xs), h, hsame => by
    obtain ⟨htakes, hsome, hrest⟩ := h
    have hname : ∀ v, (name, v) ∈ ms ↔ (name, v) ∈ ns := fun v => hsame (name, v) List.mem_cons_self
    refine ⟨fun v hv => htakes v ((hname v).2 hv), ?_, ?_⟩
    · rcases hsome with hsome | ⟨v, hv⟩
      · exact .inl hsome
      · exact .inr ⟨v, (hname v).1 hv⟩
    · exact Ready.congr hrest fun m hm => hsame m (List.mem_cons_of_mem name hm)

/-- A member that comes first can be set, and leaves the others ready. -/
theorem Ready.step : {α σ : Type} → {f : Fields α σ} → {name : String} → {v : Json} →
    {ms : List (String × Json)} → {state : σ} → f.names.Nodup → name ∉ ms.map (·.1) →
    f.Ready ((name, v) :: ms) state → ∃ next, f.setMember name v state = .ok next ∧ f.Ready ms next
  | _, _, .nil, _, _, _, state, _, _, _ => ⟨state, rfl, trivial⟩
  | _, _, .cons own item whenAbsent _ _ rest, name, v, ms, (x, xs), hnames, hother, h => by
    obtain ⟨htakes, hsome, hrest⟩ := h
    obtain ⟨hown, hnames⟩ := List.nodup_cons.1 hnames
    have hlater : ∀ w, (name, w) ∉ ms := fun w hw => hother (List.mem_map_of_mem hw)
    by_cases hname : name = own
    · subst hname
      obtain ⟨rfl, a, ha⟩ := htakes v List.mem_cons_self
      refine ⟨(some a, xs), by simp [setMember, ha, Except.map], ?_, .inl rfl, ?_⟩
      · intro w hw
        exact absurd hw (hlater w)
      · refine hrest.congr fun m hm => ?_
        have hne : m ≠ (name, v) := by
          rintro rfl
          exact hown hm
        rw [List.mem_cons, or_iff_right hne]
    · obtain ⟨ys, hys, hready⟩ := Ready.step hnames hother hrest
      have hmem : ∀ w, (own, w) ∈ (name, v) :: ms ↔ (own, w) ∈ ms := by
        intro w
        rw [List.mem_cons, or_iff_right fun heq => hname (Prod.mk.inj heq).1.symm]
      refine ⟨(x, ys), by simp [setMember, hname, hys, Except.map], ?_, ?_, hready⟩
      · intro w hw
        exact htakes w ((hmem w).2 hw)
      · rcases hsome with hsome | ⟨w, hw⟩
        · exact .inl hsome
        · exact .inr ⟨w, (hmem w).1 hw⟩

theorem Ready.complete : {α σ : Type} → {f : Fields α σ} → {state : σ} → f.Ready [] state →
    ∃ a, f.complete state = .ok a
  | _, _, .nil, (), _ => ⟨(), rfl⟩
  | _, _, .cons name item whenAbsent _ _ rest, (x, xs), h => by
    obtain ⟨-, hsome, hrest⟩ := h
    obtain ⟨b, hb⟩ := Ready.complete hrest
    rcases hsome with hsome | ⟨v, hv⟩
    · obtain ⟨a, ha⟩ := Option.isSome_iff_exists.1 hsome
      exact ⟨(a, b), by simp [Fields.complete, ha, hb]⟩
    · cases hv

variable {α σ : Type} {f : Fields α σ}

/-- **Members that are ready make up a record**, in whatever order they come. -/
theorem Ready.ofMembers {ms : List (String × Json)} (h : f.Ready ms f.none) (hnames : f.names.Nodup)
    (hdistinct : (ms.map (·.1)).Nodup) : ∃ a, f.ofMembers f.setMember ms = .ok a := by
  suffices hrun : ∀ state, f.Ready ms state →
      ∃ last, ms.foldlM (fun state m => f.setMember m.1 m.2 state) state = .ok last ∧ f.Ready [] last by
    obtain ⟨last, hlast, hready⟩ := hrun f.none h
    obtain ⟨a, ha⟩ := hready.complete
    exact ⟨a, ofMembers_eq_ok_iff.2 ⟨last, hlast, ha⟩⟩
  clear h
  induction ms with
  | nil => exact fun state hready => ⟨state, rfl, hready⟩
  | cons m ms ih =>
    intro state hready
    obtain ⟨hother, hdistinct⟩ := List.nodup_cons.1 hdistinct
    obtain ⟨next, hnext, hready⟩ := hready.step hnames hother
    obtain ⟨last, hlast, hdone⟩ := ih hdistinct next hready
    refine ⟨last, ?_, hdone⟩
    rw [List.foldlM_cons, hnext]
    exact hlast

end Fields

/-! ## Shapes -/

namespace Shape

variable {α : Type}

theorem Takes.option {item : Shape α} {v : Json} (h : item.Takes v) : (Shape.option item).Takes v := by
  obtain ⟨a, ha⟩ := h
  cases v with
  | null => exact ⟨none, rfl⟩
  | _ => exact ⟨some a, by simp only [ofJson, ha]; rfl⟩

theorem Takes.list {item : Shape α} {vs : List Json} (h : ∀ v ∈ vs, item.Takes v) :
    (Shape.list item).Takes (.arr vs) := by
  induction vs with
  | nil => exact ⟨[], rfl⟩
  | cons v vs ih =>
    obtain ⟨hv, hvs⟩ := List.forall_mem_cons.1 h
    obtain ⟨a, ha⟩ := hv
    obtain ⟨as, has⟩ := ih hvs
    rw [ofJson, mapM_eq_ok_iff] at has
    refine ⟨a :: as, ?_⟩
    rw [ofJson, mapM_eq_ok_iff]
    exact .cons ha has

theorem Takes.tagged {tag : String} {item : Shape α} {v : Json} (h : item.Takes v) :
    (Shape.tagged tag item).Takes (.obj [(tag, v)]) := by
  obtain ⟨a, ha⟩ := h
  exact ⟨a, by simp [ofJson, ha]⟩

theorem Takes.convert {β : Type} {read : α → Except String β} {back : β → α} {item : Shape α} {v : Json}
    (htotal : IsTotal read) (h : item.Takes v) : (Shape.convert read back item).Takes v := by
  obtain ⟨a, ha⟩ := h
  obtain ⟨b, hb⟩ := htotal a
  exact ⟨b, by simp only [ofJson, ha, hb]⟩

theorem canonical_of_isScalar {v : Json} (h : v.IsScalar) : v.canonical = v := by
  cases v with
  | arr items => cases h
  | obj members => cases h
  | _ => rfl

/-- The second shape accepts what it writes of the values that the first is faithful to. -/
def AcceptsWritten (α : Type) (s s' : Shape α) : Prop := ∀ a, s.Faithful a → s'.Takes (s'.write a).canonical

end Shape

theorem Json.canonical_underTag (name : String) (under : Option Json) :
    (Json.underTag name under).canonical = Json.underTag name (under.map Json.canonical) := by
  cases under <;> rfl

/-- What a value is written as stands under a tag, and is accepted there. -/
def Variants.TakesWritten {α : Type} (variants : Variants α) (v : Json) : Prop :=
  ∃ tag under payload a, v = Json.underTag tag under ∧ tag ∈ variants.tags ∧
    variants.ofTag tag = some payload ∧ payload (under.map Json.canonical) = .ok a

theorem Variants.TakesWritten.later {α : Type} {variants rest : Variants α} {tag : String} {v : Json}
    (h : rest.TakesWritten v) (htags : variants.tags = tag :: rest.tags) (hnodup : variants.tags.Nodup)
    (hofTag : ∀ name, name ≠ tag → variants.ofTag name = rest.ofTag name) : variants.TakesWritten v := by
  obtain ⟨name, under, payload, a, hv, hmem, hpayload, ha⟩ := h
  rw [htags] at hnodup
  have hne : name ≠ tag := fun heq => (List.nodup_cons.1 hnodup).1 (heq ▸ hmem)
  refine ⟨name, under, payload, a, hv, ?_, by rw [hofTag name hne, hpayload], ha⟩
  rw [htags]
  exact List.mem_cons_of_mem tag hmem

/-- The members that are written, in canonical form. -/
def Fields.canonicalMembers {α σ : Type} (f : Fields α σ) (a : α) : List (String × Json) :=
  (f.writeMembers a).map fun m => (m.1, m.2.canonical)

theorem Fields.canonicalMembers_hidden {α β σ : Type} {name : String} {item : Shape α}
    {whenAbsent whenShort : Option α} {isHidden : α → Bool} {rest : Fields β σ} {a : α} (h : isHidden a = true)
    (b : β) :
    (Fields.cons name item whenAbsent whenShort isHidden rest).canonicalMembers (a, b) =
      rest.canonicalMembers b := by
  rw [canonicalMembers, writeMembers, if_pos h, canonicalMembers]

theorem Fields.canonicalMembers_shown {α β σ : Type} {name : String} {item : Shape α}
    {whenAbsent whenShort : Option α} {isHidden : α → Bool} {rest : Fields β σ} {a : α} (h : isHidden a = false)
    (b : β) :
    (Fields.cons name item whenAbsent whenShort isHidden rest).canonicalMembers (a, b) =
      (name, (item.write a).canonical) :: rest.canonicalMembers b := by
  rw [canonicalMembers, writeMembers, if_neg (by rw [h]; exact Bool.false_ne_true), List.map_cons,
    canonicalMembers]

theorem Fields.names_canonicalMembers {α σ : Type} {f : Fields α σ} {a : α} {m : String × Json}
    (h : m ∈ f.canonicalMembers a) : m.1 ∈ f.names := by
  obtain ⟨n, hn, rfl⟩ := List.mem_map.1 h
  exact f.names_writeMembers a n hn

theorem Fields.nodup_writeMembers : {α σ : Type} → (f : Fields α σ) → (a : α) → f.names.Nodup →
    ((f.writeMembers a).map (·.1)).Nodup
  | _, _, .nil, _, _ => List.nodup_nil
  | _, _, .cons name item _ _ isHidden rest, (a, b), hnames => by
    obtain ⟨hname, hnames⟩ := List.nodup_cons.1 hnames
    have hrest := Fields.nodup_writeMembers rest b hnames
    rw [Fields.writeMembers]
    split
    · exact hrest
    · refine List.nodup_cons.2 ⟨?_, hrest⟩
      intro hmem
      obtain ⟨m, hm, rfl⟩ := List.mem_map.1 hmem
      exact hname (rest.names_writeMembers b m hm)

theorem Fields.length_writeItems : {α σ : Type} → (f : Fields α σ) → (a : α) → (f.writeItems a).length = f.count
  | _, _, .nil, _ => rfl
  | _, _, .cons _ _ _ _ _ rest, (_, b) => by
    rw [Fields.writeItems, List.length_cons, Fields.length_writeItems rest b, Fields.count]

/-- A record that is written is accepted when its members are ready in the order of the shape. -/
theorem Fields.ofMembers_written {α σ : Type} {f : Fields α σ} {a : α} (hnames : f.names.Nodup)
    (h : f.Ready (f.canonicalMembers a) f.none) :
    ∃ b, f.ofMembers f.setMember (Json.canonicalMembers [] (f.writeMembers a)) = .ok b := by
  have hperm := Json.canonicalMembers_perm (f.nodup_writeMembers a hnames)
  refine Fields.Ready.ofMembers (h.congr fun m _ => hperm.mem_iff.symm) hnames ?_
  exact (Json.ascending_canonicalMembers List.Pairwise.nil).nodup

-- The recursion is on how the two shapes are alike, with the value written by the second. The depth keeps
-- the second shape from being exhausted.
mutual

/-- **What the second of two shapes writes, it accepts**, if the first is faithful to it. -/
theorem Shape.Alike.takes : {k : Nat} → {α : Type} → {s s' : Shape α} →
    Shape.Alike Shape.AcceptsWritten k s s' → {a : α} → s.Faithful a → (s'.write a).depth < k →
    s'.Takes (s'.write a).canonical
  | _, _, _, _, .deep, _, _, hdepth => absurd hdepth (Nat.not_lt_zero _)
  | _, _, _, _, .weaken hjk h, _, ha, hdepth => h.takes ha (Nat.lt_of_lt_of_le hdepth hjk)
  | _, _, _, _, .given h, a, ha, _ => h a ha
  | _, _, _, _, .exhausted, _, ha, _ => by cases ha
  | _, _, _, _, .int32, n, _, _ => ⟨Int32.ofInt n.toInt, if_pos (Shape.isInt32_toInt n)⟩
  | _, _, _, _, .int64, n, _, _ => ⟨Int64.ofInt n.toInt, if_pos (Shape.isInt64_toInt n)⟩
  | _, _, _, _, .natural, n, _, _ => ⟨n, by simp [Shape.write, Json.canonical, Shape.ofJson, Shape.natural?]⟩
  | _, _, _, _, .bool, b, _, _ => ⟨b, rfl⟩
  | _, _, _, _, .string, s, _, _ => ⟨s, rfl⟩
  | _, _, _, _, .character, c, _, _ => ⟨c, by simp [Shape.write, Json.canonical, Shape.ofJson, Shape.character?]⟩
  | _, _, _, _, .option _, none, _, _ => ⟨none, rfl⟩
  | _, _, _, _, .option h, some a, ha, hdepth => (h.takes (ha a rfl).1 hdepth).option
  | _, _, _, _, @Shape.Alike.list _ _ _ _ item' h, as, has, hdepth => by
    rw [Shape.write, Json.depth] at hdepth
    rw [Shape.write, Json.canonical, Json.canonicalItems_eq_map, List.map_map]
    refine .list ?_
    intro v hv
    obtain ⟨a, ha, rfl⟩ := List.mem_map.1 hv
    have hle : (item'.write a).depth ≤ _ := Json.depth_le_depthItems (List.mem_map_of_mem ha)
    exact h.takes (has a ha) (by omega)
  | _, _, _, _, @Shape.Alike.record _ _ _ _ _ f f' h, a, ha, hdepth => by
    obtain ⟨hnames, ha⟩ := ha
    rw [Shape.write, Json.depth] at hdepth
    have hnames : f'.names.Nodup := by
      rw [h.names_eq]
      exact hnames
    have hready := h.ready hnames ha (by omega) (fun _ _ => Iff.rfl)
    exact Fields.ofMembers_written hnames hready
  | _, _, _, _, .tagged h, _, ha, hdepth => by
    rw [Shape.write, Shape.depth_tagged] at hdepth
    exact (h.takes ha (Nat.lt_of_succ_lt_succ hdepth)).tagged
  | _, _, _, _, @Shape.Alike.choice _ _ _ v v' h, a, ha, hdepth => by
    obtain ⟨htags, ha⟩ := ha
    rw [← h.tags_eq] at htags
    obtain ⟨tag, under, payload, b, heq, -, hpayload, hb⟩ := h.takesWritten htags ha hdepth
    rw [Shape.write, heq, Json.canonical_underTag]
    refine ⟨b, ?_⟩
    generalize under.map Json.canonical = inside at hb ⊢
    cases inside <;> simp only [Json.underTag, Shape.ofJson, hpayload, hb]
  | _, _, _, _, .convert htotal h, _, ha, hdepth => (h.takes ha.2 hdepth).convert htotal
  | _, _, _, _, .either _, a, ha, _ => by
    refine ⟨a, ?_⟩
    rw [Shape.write, Shape.canonical_of_isScalar ha.2]
    simp only [Shape.ofJson, ha.1]
  | _, _, _, _, .word _, b, h, _ => by
    obtain ⟨hb, ha⟩ := h
    refine ⟨b, ?_⟩
    rw [Shape.write, Shape.write, Shape.canonical_of_isScalar ha.2]
    simp only [Shape.ofJson, ha.1, hb]

theorem Fields.Alike.ready : {k : Nat} → {α σ : Type} → {f f' : Fields α σ} →
    Fields.Alike Shape.AcceptsWritten k f f' → {a : α} → {ms : List (String × Json)} → f'.names.Nodup →
    f.Faithful a → Json.depthMembers (f'.writeMembers a) < k →
    (∀ m, m.1 ∈ f'.names → (m ∈ f'.canonicalMembers a ↔ m ∈ ms)) → f'.Ready ms f'.none
  | _, _, _, _, _, .nil, _, _, _, _, _, _ => trivial
  | _, _, _, _, _, @Fields.Alike.cons _ _ _ _ _ name item item' whenAbsent whenShort isHidden rest rest' hitem hrest,
      (a, b), ms, hnames, h, hdepth, hsame => by
    obtain ⟨ha, hb⟩ := h
    obtain ⟨hname, hnames⟩ := List.nodup_cons.1 hnames
    have hother : ∀ v, (name, v) ∉ rest'.canonicalMembers b := fun v hv =>
      hname (Fields.names_canonicalMembers hv)
    rw [Fields.writeMembers] at hdepth
    cases hhidden : isHidden a with
    | true =>
      rw [Fields.canonicalMembers_hidden hhidden] at hsame
      rw [hhidden, if_pos rfl] at ha hdepth
      refine ⟨?_, .inl (by rw [ha]; rfl), ?_⟩
      · intro v hv
        exact absurd ((hsame (name, v) List.mem_cons_self).2 hv) (hother v)
      · exact hrest.ready hnames hb hdepth fun m hm => hsame m (List.mem_cons_of_mem name hm)
    | false =>
      rw [Fields.canonicalMembers_shown hhidden] at hsame
      rw [hhidden, if_neg Bool.false_ne_true] at ha hdepth
      rw [Json.depthMembers, Nat.max_lt] at hdepth
      have hmem : ∀ v, (name, v) ∈ ms ↔ v = (item'.write a).canonical := by
        intro v
        rw [← hsame (name, v) List.mem_cons_self, List.mem_cons, or_iff_left (hother v), Prod.mk.injEq,
          and_iff_right rfl]
      refine ⟨?_, .inr ⟨_, (hmem _).2 rfl⟩, ?_⟩
      · intro v hv
        rw [(hmem v).1 hv]
        exact ⟨rfl, hitem.takes ha hdepth.1⟩
      · refine hrest.ready hnames hb hdepth.2 fun m hm => ?_
        have hne : m ≠ (name, (item'.write a).canonical) := by
          rintro rfl
          exact hname hm
        rw [← hsame m (List.mem_cons_of_mem name hm), List.mem_cons, or_iff_right hne]

theorem Fields.Alike.ofItems_written : {k : Nat} → {α σ : Type} → {f f' : Fields α σ} →
    Fields.Alike Shape.AcceptsWritten k f f' → {a : α} → f.FaithfulItems a →
    Json.depthItems (f'.writeItems a) < k → (expected : String) → (n : Nat) →
    ∃ b, f'.ofItems expected n (Json.canonicalItems (f'.writeItems a)) = .ok (b, [])
  | _, _, _, _, _, .nil, _, _, _, _, _ => ⟨(), rfl⟩
  | _, _, _, _, _, .cons hitem hrest, (a, b), h, hdepth, expected, n => by
    obtain ⟨ha, hb⟩ := h
    rw [Fields.writeItems, Json.depthItems, Nat.max_lt] at hdepth
    obtain ⟨c, hc⟩ := hitem.takes ha hdepth.1
    obtain ⟨d, hd⟩ := hrest.ofItems_written hb hdepth.2 expected (n + 1)
    refine ⟨(c, d), ?_⟩
    simp only [Fields.writeItems, Json.canonicalItems, Fields.ofItems, hc, hd]
    rfl

theorem Variants.Alike.takesWritten : {k : Nat} → {α : Type} → {variants variants' : Variants α} →
    Variants.Alike Shape.AcceptsWritten k variants variants' → {a : α} → variants'.tags.Nodup →
    variants.Faithful a → (variants'.write a).depth < k + 1 → variants'.TakesWritten (variants'.write a)
  | _, _, _, _, .nil, _, _, ha, _ => by cases ha
  | _, _, _, _, @Variants.Alike.bare _ _ _ tag value isThis _ rest' hrest, a, htags, ha, hdepth => by
    rw [Variants.Faithful] at ha
    rw [Variants.write] at hdepth ⊢
    cases hthis : isThis a with
    | true =>
      exact ⟨tag, none, _, value, rfl, List.mem_cons_self, by rw [Variants.ofTag, if_pos rfl], rfl⟩
    | false =>
      rw [hthis, if_neg Bool.false_ne_true] at ha hdepth
      exact (hrest.takesWritten (List.nodup_cons.1 htags).2 ha hdepth).later rfl htags
        (by intro name hname; rw [Variants.ofTag, if_neg hname])
  | _, _, _, _, @Variants.Alike.holding _ _ _ _ tag item item' inject project _ rest' hitem hrest, a, htags, ha,
      hdepth => by
    rw [Variants.Faithful] at ha
    rw [Variants.write] at hdepth ⊢
    cases hproject : project a with
    | some b =>
      simp only [hproject] at ha hdepth ⊢
      rw [Shape.depth_tagged] at hdepth
      obtain ⟨c, hc⟩ := hitem.takes ha.2 (Nat.lt_of_succ_lt_succ hdepth)
      refine ⟨tag, some (item'.write b), _, inject c, rfl, List.mem_cons_self,
        by rw [Variants.ofTag, if_pos rfl], ?_⟩
      simp only [Option.map_some, hc]
      rfl
    | none =>
      simp only [hproject] at ha hdepth ⊢
      exact (hrest.takesWritten (List.nodup_cons.1 htags).2 ha hdepth).later rfl htags
        (by intro name hname; rw [Variants.ofTag, if_neg hname])
  | _, _, _, _, @Variants.Alike.named _ _ _ _ _ tag title f f' inject project _ rest' hf hrest, a, htags, ha,
      hdepth => by
    rw [Variants.Faithful] at ha
    rw [Variants.write] at hdepth ⊢
    cases hproject : project a with
    | some b =>
      simp only [hproject] at ha hdepth ⊢
      rw [Shape.depth_tagged, Json.depth] at hdepth
      have hnames : f'.names.Nodup := by
        rw [hf.names_eq]
        exact ha.2.1
      obtain ⟨c, hc⟩ :=
        Fields.ofMembers_written hnames (hf.ready hnames ha.2.2 (by omega) (fun _ _ => Iff.rfl))
      refine ⟨tag, some (.obj (f'.writeMembers b)), _, inject c, rfl, List.mem_cons_self,
        by rw [Variants.ofTag, if_pos rfl], ?_⟩
      simp only [Option.map_some, Json.canonical, hc]
      rfl
    | none =>
      simp only [hproject] at ha hdepth ⊢
      exact (hrest.takesWritten (List.nodup_cons.1 htags).2 ha hdepth).later rfl htags
        (by intro name hname; rw [Variants.ofTag, if_neg hname])
  | _, _, _, _, @Variants.Alike.positional _ _ _ _ _ tag title f f' inject project _ rest' hcount hf hrest, a,
      htags, ha, hdepth => by
    rw [Variants.Faithful] at ha
    rw [Variants.write] at hdepth ⊢
    cases hproject : project a with
    | some b =>
      simp only [hproject] at ha hdepth ⊢
      rw [Shape.depth_tagged, Json.depth] at hdepth
      obtain ⟨c, hc⟩ := hf.ofItems_written ha.2 (by omega) (Fields.counted title f'.count) 0
      have harray : f'.ofArray title f'.ofItems (Json.canonicalItems (f'.writeItems b)) = .ok c :=
        Fields.ofArray_eq_ok_iff.2 hc
      refine ⟨tag, some (.arr (f'.writeItems b)), _, inject c, rfl, List.mem_cons_self,
        by rw [Variants.ofTag, if_pos rfl], ?_⟩
      simp only [Option.map_some, Json.canonical]
      cases hitems : Json.canonicalItems (f'.writeItems b) with
      | nil =>
        rw [Json.canonicalItems_eq_map, List.map_eq_nil_iff] at hitems
        have hlength := f'.length_writeItems b
        rw [hitems, List.length_nil, hf.count_eq] at hlength
        exact absurd hlength.symm hcount
      | cons v vs =>
        rw [hitems] at harray
        simp only [harray]
        rfl
    | none =>
      simp only [hproject] at ha hdepth ⊢
      exact (hrest.takesWritten (List.nodup_cons.1 htags).2 ha hdepth).later rfl htags
        (by intro name hname; rw [Variants.ofTag, if_neg hname])

end

/-! ## Parse trees -/

namespace ParseMode

/-- The mode has no name. -/
def isOther : ParseMode → Bool
  | other _ => true
  | _ => false

/-- The mode with a code, or the one that has no name. -/
def ofCodeOrOther (code : Int32) (isOther : Bool) : ParseMode := if isOther then other code else ofCode code

theorem ofCodeOrOther_code (mode : ParseMode) : ofCodeOrOther mode.code mode.isOther = mode := by
  cases mode <;> rfl

end ParseMode

/-- Raw leaves with whether their mode has a name. Nothing is written like this, but it tells all raw leaves
apart, so it is faithful to them. -/
def Leaf.rawShape : Shape Leaf :=
  .convert (fun (text, code, isOther, ()) => .ok (.raw text (.ofCodeOrOther code isOther)))
    (fun l => (l.captured, l.mode.code, l.mode.isOther, ()))
    (.record "struct RawExpr" (.required "query" .string (.required "parseMode" .int32
      (.required "other" .bool .nil))))

theorem Leaf.rawShape_faithful (text : String) (mode : ParseMode) : Leaf.rawShape.Faithful (.raw text mode) := by
  refine ⟨?_, by simp, trivial, trivial, trivial, trivial⟩
  simp only [Leaf.captured, Leaf.mode, ParseMode.ofCodeOrOther_code]

/-- A raw leaf is accepted, but for its mode: that may be read as the one with a name. -/
theorem Leaf.acceptsWritten (sql : Sql.Codecs) :
    Shape.AcceptsWritten Leaf Leaf.rawShape (Leaf.shape sql) := by
  rintro l ⟨hl, -⟩
  cases l with
  | hydrated captured mode content => cases hl
  | raw text mode =>
    have hmode : Shape.int32? (.int mode.code.toInt) = .ok mode.code := by
      rw [Shape.int32?, if_pos (Shape.isInt32_toInt _), Int32.ofInt_toInt]
    have hvalue : ((Leaf.shape sql).write (.raw text mode)).canonical = .obj [("PLpgSQL_expr",
        .obj [("parseMode", .int mode.code.toInt), ("query", .str text)])] := rfl
    refine ⟨.raw text (.ofCode mode.code), ?_⟩
    rw [hvalue]
    simp [Leaf.shape, Shape.ofJson, Variants.ofTag, Fields.ofMembers, Fields.required, Fields.defaulted,
      Fields.none, Fields.setMember, Fields.complete, ParseMode.shape, hmode, Shape.string?, Except.map,
      bind, Except.bind, pure, Except.pure]

/-- Raw types. -/
def TypeRef.rawShape : Shape TypeRef := .convert (fun name => .ok (.raw name)) TypeRef.captured .string

theorem TypeRef.rawShape_faithful (name : String) : TypeRef.rawShape.Faithful (.raw name) := ⟨rfl, trivial⟩

/-- A raw type is accepted, whatever the codecs are. -/
theorem TypeRef.acceptsWritten (sql : Sql.Codecs) :
    Shape.AcceptsWritten TypeRef TypeRef.rawShape (TypeRef.shape sql) := by
  rintro t ⟨ht, -⟩
  cases t with
  | hydrated captured tree suffix => cases ht
  | raw name => exact ⟨.raw name, rfl⟩

namespace ParseTree

/-- There is nothing in any leaf but text, also in the data inside statements. -/
def HoldsText (t : ParseTree) : Prop := ∀ x ∈ t.contents, x.IsRaw

instance (t : ParseTree) : Decidable t.HoldsText := inferInstanceAs (Decidable (∀ x ∈ t.contents, x.IsRaw))

theorem takes_toValue {sql : Sql.Codecs} {t : ParseTree} (h : t.HoldsText) :
    (shape sql t.depth).Takes (t.toValue sql).canonical := by
  have hfaithful : (format Leaf.rawShape TypeRef.rawShape t.depth).Faithful t := by
    refine faithful_of_contents ?_ ?_ ?_
    · exact fun _ _ => Json.noConfusion
    · exact fun _ _ => Json.noConfusion
    · intro x hx
      have hraw := h x hx
      match x with
      | .leaf (.raw text mode) => exact Leaf.rawShape_faithful text mode
      | .type (.raw name) => exact TypeRef.rawShape_faithful name
  have halike : Shape.Alike Shape.AcceptsWritten ((t.toValue sql).depth + 1)
      (format Leaf.rawShape TypeRef.rawShape t.depth) (shape sql t.depth) :=
    format_alike (.given (Leaf.acceptsWritten sql)) (.given (TypeRef.acceptsWritten sql)) (.inl (Nat.le_refl _))
  exact halike.takes hfaithful (Nat.lt_succ_self _)

/-- **What a tree is encoded as is decoded**, if its leaves hold nothing but text. -/
theorem ofJson_toValue {sql : Sql.Codecs} (hsql : sql.Agree) {t : ParseTree} (h : t.HoldsText) :
    ∃ t', ofJson (t.toValue sql) sql = .ok t' := by
  obtain ⟨t', ht'⟩ := takes_toValue h
  have halike : Shape.Alike Shape.DecodesAlso ((t.toValue sql).canonical.depth + 1) (shape sql t.depth)
      (shape sql (t.toValue sql).canonical.depth) :=
    shape_alike hsql.given (.inr (Nat.le_refl _))
  exact ⟨t', ofJson_eq_ok_iff.2 (halike.decodes (Nat.lt_succ_self _) ht').value⟩

end ParseTree
end Routine
