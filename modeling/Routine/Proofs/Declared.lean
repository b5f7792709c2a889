import Mathlib.Data.List.Nodup
import Mathlib.Data.List.Perm.Basic
import Routine.Proofs.Scope

/-!
# Every planned declaration is made once

The plan is made in one walk over the routine and used up in another, block by block, and several blocks may
stand in one line. Nothing is assumed about lines here. It is only assumed that no statements are left out
of the layout, since blocks among them would be in the plan and never come up.

* A block takes what is planned for its line out of the plan (`Pending.find_append_erase_perm`), so what the
  blocks have taken and what is left make up the plan, whatever blocks there are (`Pending.takenBy_perm`).
* Each place is in the plan once (`Function.places_perm`, `Function.nodup_declared`), under the line of a
  block of the routine (`Function.mem_blocks_of_mem_nested`), so nothing is left.
* Sections stand between the label of their block and its `BEGIN` (`Block.framed`).
-/

namespace Routine

open Piece

/-! ## Sorted lines -/

theorem pairwise_insertLine {line : Int32} {ls : List Int32} (h : ls.Pairwise (· < ·)) :
    (insertLine line ls).Pairwise (· < ·) := by
  induction ls with
  | nil => exact List.pairwise_singleton _ _
  | cons l ls ih =>
    obtain ⟨hl, hls⟩ := List.pairwise_cons.1 h
    unfold insertLine
    split
    · next hlt =>
      refine List.pairwise_cons.2 ⟨?_, h⟩
      intro a ha
      rcases List.mem_cons.1 ha with rfl | ha
      · exact hlt
      · exact Int32.lt_trans hlt (hl a ha)
    · next hge =>
      split
      · exact h
      · next hne =>
        refine List.pairwise_cons.2 ⟨?_, ih hls⟩
        intro a ha
        rcases mem_insertLine.1 ha with rfl | ha
        · exact Int32.lt_of_le_of_ne (Int32.not_lt.1 hge) fun heq => hne heq.symm
        · exact hl a ha

theorem pairwise_ascending (lines : List Int32) : (ascending lines).Pairwise (· < ·) := by
  induction lines with
  | nil => exact .nil
  | cons l ls ih => exact pairwise_insertLine ih

theorem nodup_ascending (lines : List Int32) : (ascending lines).Nodup :=
  nodup_of_pairwise_lt (pairwise_ascending lines)

/-! ## Using up a plan -/

namespace Pending

/-- All places that are planned for. -/
def places (p : Pending) : List Nat := p.flatMap Prod.snd

variable {p : Pending}

theorem erase_of_not_mem {line : Int32} (h : line ∉ p.map Prod.fst) : p.erase line = p := by
  refine List.filter_eq_self.2 fun entry hentry => ?_
  simpa using fun heq => h (List.mem_map.2 ⟨entry, hentry, heq⟩)

theorem erase_cons_self (entry : Int32 × List Nat) : erase entry.1 (entry :: p) = p.erase entry.1 :=
  List.filter_cons_of_neg (by simp)

theorem erase_cons_of_ne {line : Int32} {entry : Int32 × List Nat} (h : entry.1 ≠ line) :
    erase line (entry :: p) = entry :: p.erase line :=
  List.filter_cons_of_pos (by simpa using h)

theorem nodup_erase (h : (p.map Prod.fst).Nodup) (line : Int32) : ((p.erase line).map Prod.fst).Nodup :=
  h.sublist (List.filter_sublist.map Prod.fst)

theorem find_of_mem (h : (p.map Prod.fst).Nodup) {entry : Int32 × List Nat} (hentry : entry ∈ p) :
    p.find entry.1 = entry.2 := by
  induction p with
  | nil => cases hentry
  | cons first p ih =>
    obtain ⟨hfirst, hp⟩ := List.nodup_cons.1 h
    rcases List.mem_cons.1 hentry with rfl | hlater
    · exact find_cons_self entry p
    · have hne : first.1 ≠ entry.1 := fun heq => hfirst (heq ▸ List.mem_map_of_mem hlater)
      rw [find_cons_of_ne hne, ih hp hlater]

/-- What is found for a line and what is left without it make up the plan. -/
theorem find_append_erase_perm (h : (p.map Prod.fst).Nodup) (line : Int32) :
    (p.find line ++ (p.erase line).places).Perm p.places := by
  induction p with
  | nil => exact .nil
  | cons entry p ih =>
    obtain ⟨hentry, hp⟩ := List.nodup_cons.1 h
    by_cases hline : entry.1 = line
    · subst hline
      rw [find_cons_self, erase_cons_self, erase_of_not_mem hentry]
      exact .refl _
    · rw [find_cons_of_ne hline, erase_cons_of_ne hline]
      show (find line p ++ (entry.2 ++ places (erase line p))).Perm (entry.2 ++ places p)
      exact (List.perm_append_comm_assoc _ _ _).trans ((ih hp).append_left entry.2)

/-- What blocks take and what they leave make up the plan. -/
theorem takenBy_perm (h : (p.map Prod.fst).Nodup) (bs : List Block) :
    ((p.takenBy bs).flatten ++ (p.leftBy bs).places).Perm p.places := by
  induction bs generalizing p with
  | nil => exact .refl _
  | cons b bs ih =>
    rw [takenBy, leftBy, List.flatten_cons, List.append_assoc]
    exact ((ih (nodup_erase h b.line)).append_left _).trans (find_append_erase_perm h b.line)

theorem length_takenBy (bs : List Block) : (p.takenBy bs).length = bs.length := by
  induction bs generalizing p with
  | nil => rfl
  | cons b bs ih => exact congrArg (· + 1) ih

theorem mem_leftBy {bs : List Block} {entry : Int32 × List Nat} :
    entry ∈ p.leftBy bs ↔ entry ∈ p ∧ ∀ b ∈ bs, entry.1 ≠ b.line := by
  induction bs generalizing p with
  | nil => simp [leftBy]
  | cons b bs ih =>
    rw [leftBy, ih, List.forall_mem_cons, ← and_assoc]
    simp [erase]

/-- What is planned for a line is taken by the first block in it. -/
theorem exists_takenBy (h : (p.map Prod.fst).Nodup) {entry : Int32 × List Nat} (hentry : entry ∈ p)
    {bs : List Block} (hline : entry.1 ∈ bs.map Block.line) :
    ∃ k, bs.findIdx? (fun b => b.line = entry.1) = some k ∧ (p.takenBy bs)[k]? = some entry.2 := by
  induction bs generalizing p with
  | nil => cases hline
  | cons b bs ih =>
    by_cases hb : b.line = entry.1
    · refine ⟨0, by rw [List.findIdx?_cons, if_pos (by simpa using hb)], ?_⟩
      rw [takenBy, hb, find_of_mem h hentry]
      rfl
    · have hkept : entry ∈ p.erase b.line := by
        refine List.mem_filter.2 ⟨hentry, ?_⟩
        simpa using fun heq => hb heq.symm
      have hlater : entry.1 ∈ bs.map Block.line := by
        rcases List.mem_cons.1 hline with heq | hmem
        · exact absurd heq.symm hb
        · exact hmem
      obtain ⟨k, hk, htaken⟩ := ih (nodup_erase h b.line) hkept hlater
      refine ⟨k + 1, ?_, htaken⟩
      rw [List.findIdx?_cons, if_neg (by simpa using hb), hk]
      rfl

end Pending

/-! ## What is planned -/

namespace Plan

/-- All places that are planned for. -/
def places (plan : Plan) : List Nat := plan.topLevel ++ Pending.places plan.nested

/-- Sorting places by their owners loses none and repeats none. -/
theorem flatMap_ownedBy_perm {owners : List (Option Int32)} (h : owners.Nodup)
    {declared : List (Nat × Option Int32)} (howner : ∀ x ∈ declared, x.2 ∈ owners) :
    (owners.flatMap fun owner => ownedBy owner declared).Perm (declared.map Prod.fst) := by
  induction owners generalizing declared with
  | nil =>
    obtain rfl : declared = [] := List.eq_nil_iff_forall_not_mem.2 fun x hx => by cases howner x hx
    exact .nil
  | cons owner owners ih =>
    obtain ⟨hfirst, howners⟩ := List.nodup_cons.1 h
    -- The other owners have nothing of what belongs to the first.
    have hothers : (owners.flatMap fun other => ownedBy other declared) =
        owners.flatMap fun other => ownedBy other (declared.filter fun x => !(x.2 == owner)) := by
      refine List.flatMap_congr fun other hother => ?_
      have hne : other ≠ owner := fun heq => hfirst (heq ▸ hother)
      rw [ownedBy, ownedBy, List.filter_filter]
      refine congrArg _ (List.filter_congr fun x _ => ?_)
      by_cases hx : x.2 = other
      · simp [hx, hne]
      · simp [hx]
    have hleft : ∀ x ∈ declared.filter (fun x => !(x.2 == owner)), x.2 ∈ owners := by
      intro x hx
      obtain ⟨hmem, hx⟩ := List.mem_filter.1 hx
      rcases List.mem_cons.1 (howner x hmem) with heq | hlater
      · simp [heq] at hx
      · exact hlater
    rw [List.flatMap_cons, hothers]
    refine ((ih howners hleft).append_left _).trans ?_
    rw [ownedBy, ← List.map_append]
    exact (List.filter_append_perm _ declared).map Prod.fst

end Plan

namespace Function

variable {f : Function}

theorem mem_declared {x : Nat × Option Int32} :
    x ∈ f.declared ↔ ∃ d, (d, x.1) ∈ f.data.zipIdx ∧ f.isDeclarable x.1 d = true ∧ f.owner? d = x.2 := by
  obtain ⟨i, owner⟩ := x
  simp [declared, and_assoc]

/-- The places to be declared are in the order of the table. -/
theorem pairwise_declared (f : Function) : (f.declared.map Prod.fst).Pairwise (· < ·) := by
  have hsublist : (f.declared.map Prod.fst).Sublist (f.data.zipIdx.map Prod.snd) := by
    rw [declared, List.map_map]
    exact List.filter_sublist.map Prod.snd
  rw [List.zipIdx_map_snd] at hsublist
  exact List.Pairwise.sublist hsublist List.pairwise_lt_range'

theorem nodup_declared (f : Function) : (f.declared.map Prod.fst).Nodup :=
  f.pairwise_declared.imp Nat.ne_of_lt

theorem owner?_mem (d : Datum) : f.owner? d ∈ none :: f.action.blockLines.map some := by
  rw [owner?]
  split
  · cases hfind : f.action.blockLines.find? (d.line < ·) with
    | none => exact List.mem_cons_self
    | some line => exact List.mem_cons_of_mem _ (List.mem_map_of_mem (List.mem_of_find?_eq_some hfind))
  · exact List.mem_cons_self

theorem places_nested (f : Function) :
    Pending.places (Plan.ofFunction f).nested =
      f.action.blockLines.flatMap fun line => Plan.ownedBy (some line) f.declared := by
  -- Entries without places are left out of the plan, and they have no places.
  rw [Plan.ofFunction, Pending.places]
  induction f.action.blockLines with
  | nil => rfl
  | cons line lines ih =>
    rw [List.map_cons, List.filter_cons, List.flatMap_cons]
    split
    · rw [List.flatMap_cons, ih]
    · next hempty =>
      have hnone : Plan.ownedBy (some line) f.declared = [] := by simpa using hempty
      rw [ih, hnone, List.nil_append]

/-- The plan has every place that is to be declared once. -/
theorem places_perm (f : Function) : (Plan.ofFunction f).places.Perm (f.declared.map Prod.fst) := by
  have hplaces : (Plan.ofFunction f).places =
      (none :: f.action.blockLines.map some).flatMap fun owner => Plan.ownedBy owner f.declared := by
    rw [Plan.places, places_nested, List.flatMap_cons, List.flatMap_map]
    rfl
  have howners : (none :: f.action.blockLines.map some).Nodup := by
    refine List.nodup_cons.2 ⟨by simp, ?_⟩
    exact (nodup_ascending _).map fun _ _ => Option.some.inj
  rw [hplaces]
  refine Plan.flatMap_ownedBy_perm howners ?_
  intro x hx
  obtain ⟨d, -, -, howner⟩ := mem_declared.1 hx
  exact howner ▸ owner?_mem d

theorem mem_places_iff_isDeclarable {i : Nat} :
    i ∈ (Plan.ofFunction f).places ↔ ∃ d, f.data[i]? = some d ∧ f.isDeclarable i d = true := by
  rw [f.places_perm.mem_iff, List.mem_map]
  simp only [mem_declared, List.mk_mem_zipIdx_iff_getElem?]
  constructor
  · rintro ⟨_, ⟨d, hplace, hdeclarable, _⟩, rfl⟩
    exact ⟨d, hplace, hdeclarable⟩
  · rintro ⟨d, hplace, hdeclarable⟩
    exact ⟨(i, f.owner? d), ⟨d, hplace, hdeclarable, rfl⟩, rfl⟩

theorem pairwise_nested (f : Function) : ((Plan.ofFunction f).nested.map Prod.fst).Pairwise (· < ·) := by
  refine List.Pairwise.sublist (List.filter_sublist.map Prod.fst) ?_
  rw [List.map_map]
  exact (List.map_id _).symm ▸ pairwise_ascending _

theorem nodup_nested (f : Function) : ((Plan.ofFunction f).nested.map Prod.fst).Nodup :=
  nodup_of_pairwise_lt f.pairwise_nested

/-- A datum that a nested block owns stands before it, and after the `BEGIN` of the outermost block. -/
theorem lt_of_owner? {d : Datum} {line : Int32} (h : f.owner? d = some line) :
    f.action.line < d.line ∧ d.line < line := by
  rw [owner?] at h
  split at h
  · next houter => exact ⟨houter, by simpa using List.find?_some h⟩
  · cases h

theorem mem_blocks_of_mem_nested {entry : Int32 × List Nat} (h : entry ∈ (Plan.ofFunction f).nested) :
    entry.1 ∈ f.blocks.tail.map Block.line := by
  obtain ⟨line, hline, rfl⟩ := List.mem_map.1 (List.mem_filter.1 h).1
  rwa [Block.blockLines, mem_ascending, filterMap_blockLine?] at hline

theorem line_lt_of_mem_nested {entry : Int32 × List Nat} (h : entry ∈ (Plan.ofFunction f).nested) :
    f.action.line < entry.1 := by
  obtain ⟨hmem, hsome⟩ := List.mem_filter.1 h
  obtain ⟨line, -, rfl⟩ := List.mem_map.1 hmem
  obtain ⟨i, hi⟩ := List.exists_mem_of_ne_nil (Plan.ownedBy (some line) f.declared) (by simpa using hsome)
  obtain ⟨x, hx, -⟩ := List.mem_map.1 hi
  obtain ⟨hdeclared, howner⟩ := List.mem_filter.1 hx
  obtain ⟨d, -, -, hd⟩ := mem_declared.1 hdeclared
  obtain ⟨houter, hinner⟩ := lt_of_owner? (hd.trans (by simpa using howner))
  exact Int32.lt_trans houter hinner

/-- The places that the sections of the blocks get, in the order of the blocks. -/
def sectionPlaces (f : Function) : List (List Nat) :=
  (Plan.ofFunction f).topLevel :: Pending.takenBy (Plan.ofFunction f).nested f.blocks.tail

/-- Nothing is left of the plan after all blocks. -/
theorem leftBy_nested (f : Function) : Pending.leftBy (Plan.ofFunction f).nested f.blocks.tail = [] := by
  refine List.eq_nil_iff_forall_not_mem.2 fun entry hentry => ?_
  obtain ⟨hplanned, hother⟩ := Pending.mem_leftBy.1 hentry
  obtain ⟨b, hb, hline⟩ := List.mem_map.1 (mem_blocks_of_mem_nested hplanned)
  exact hother b hb hline.symm

/-- The sections get what is planned. -/
theorem sectionPlaces_perm (f : Function) : f.sectionPlaces.flatten.Perm (Plan.ofFunction f).places := by
  have htaken := Pending.takenBy_perm f.nodup_nested f.blocks.tail
  have hnone : Pending.places [] = [] := rfl
  rw [leftBy_nested, hnone, List.append_nil] at htaken
  rw [sectionPlaces, List.flatten_cons, Plan.places]
  exact htaken.append_left _

/-- What is planned for a line is for the section of the first block in the line. -/
theorem exists_sectionPlaces {entry : Int32 × List Nat} (h : entry ∈ (Plan.ofFunction f).nested) :
    ∃ k, f.blocks.findIdx? (fun b => b.line = entry.1) = some k ∧ f.sectionPlaces[k]? = some entry.2 := by
  obtain ⟨k, hk, htaken⟩ := Pending.exists_takenBy f.nodup_nested h (mem_blocks_of_mem_nested h)
  refine ⟨k + 1, ?_, htaken⟩
  have houter : ¬ f.action.line = entry.1 := fun heq => Int32.lt_irrefl (heq ▸ line_lt_of_mem_nested h)
  show (f.action :: f.blocks.tail).findIdx? (fun b => b.line = entry.1) = some (k + 1)
  rw [List.findIdx?_cons, if_neg (by simpa using houter), hk]
  rfl

theorem length_sectionPlaces (f : Function) : f.sectionPlaces.length = f.blocks.length := by
  rw [sectionPlaces, List.length_cons, Pending.length_takenBy]
  rfl

theorem isDeclarable_of_mem_sectionPlaces {places : List Nat} (hplaces : places ∈ f.sectionPlaces) {i : Nat}
    (hi : i ∈ places) : ∃ d, (d, i) ∈ f.data.zipIdx ∧ f.isDeclarable i d = true := by
  have hmem : i ∈ f.declared.map Prod.fst :=
    (f.sectionPlaces_perm.trans f.places_perm).mem_iff.1 (List.mem_flatten.2 ⟨places, hplaces, hi⟩)
  obtain ⟨x, hx, rfl⟩ := List.mem_map.1 hmem
  obtain ⟨d, hd, hdeclarable, -⟩ := mem_declared.1 hx
  exact ⟨d, hd, hdeclarable⟩

end Function

/-! ## Frames -/

/-- Every open section stands between the label of its block and its `BEGIN`. -/
inductive Framed (y : Layout) : List Piece → Prop
  | nil : Framed y []
  | line (l : Line) {ps : List Piece} (h : Framed y ps) : Framed y (.line l :: ps)
  | block (depth : Nat) (b : Block) {ps : List Piece} (h : Framed y ps) :
      Framed y (ofLines (Layout.labelLines depth b.label) ++
        .declare depth b :: .line ⟨depth, y.keyword "BEGIN"⟩ :: ps)

namespace Framed

variable {y : Layout} {ps qs : List Piece}

theorem append (hps : Framed y ps) (hqs : Framed y qs) : Framed y (ps ++ qs) := by
  induction hps with
  | nil => exact hqs
  | line l _ ih => exact .line l ih
  | block depth b _ ih =>
    rw [List.append_assoc, List.cons_append, List.cons_append]
    exact .block depth b ih

theorem ofLines (ls : List Line) (hps : Framed y ps) : Framed y (Piece.ofLines ls ++ ps) := by
  induction ls with
  | nil => exact hps
  | cons l ls ih => exact .line l ih

theorem closed (hps : Framed y ps) (l : Line) : Framed y (ps ++ [.line l]) :=
  hps.append (.line l .nil)

/-- The section of each block in its frame, after the sections of the blocks before it. -/
theorem split (h : Framed y ps) {k : Nat} {b : Block} (hb : (sections ps)[k]? = some b) :
    ∃ depth before after, sections before = (sections ps).take k ∧
      ps = before ++ (Piece.ofLines (Layout.labelLines depth b.label) ++
        .declare depth b :: .line ⟨depth, y.keyword "BEGIN"⟩ :: after) := by
  induction h generalizing k with
  | nil => cases hb
  | line l _ ih =>
    obtain ⟨depth, before, after, hbefore, rfl⟩ := ih hb
    exact ⟨depth, .line l :: before, after, hbefore, rfl⟩
  | @block depth first ps _ ih =>
    simp only [sections_append, sections_ofLines, List.nil_append, sections_declare, sections_line] at hb ⊢
    cases k with
    | zero =>
      obtain rfl := Option.some.inj hb
      exact ⟨depth, [], ps, rfl, rfl⟩
    | succ k =>
      obtain ⟨depth', before, after, hbefore, hps⟩ := ih hb
      refine ⟨depth', Piece.ofLines (Layout.labelLines depth first.label) ++
        .declare depth first :: .line ⟨depth, y.keyword "BEGIN"⟩ :: before, after, ?_, ?_⟩
      · simp only [sections_append, sections_ofLines, List.nil_append, sections_declare, sections_line,
          hbefore, List.take_succ_cons]
      · rw [hps, List.append_assoc]
        rfl

end Framed

section

variable (y : Layout)

mutual

theorem Stmt.framed (depth : Nat) : (s : Stmt) → Framed y (s.pieces y depth)
  | .block b => by
    rw [Stmt.pieces]
    exact Block.framed depth false b
  | .simple _ s => by
    rw [Stmt.pieces]
    exact .line _ .nil
  | .conditional _ condition body arms otherwise => by
    rw [Stmt.pieces]
    refine .closed (.append (.append (.line _ (Stmts.framed (depth + 1) body))
      (Arms.framed_conditional depth arms)) ?_) _
    split
    · exact .nil
    · exact .line _ (Stmts.framed (depth + 1) otherwise)
  | .choice _ operand _ arms hasElse otherwise => by
    rw [Stmt.pieces]
    refine .closed (.append (.line _ (Arms.framed_choice depth operand.isSome arms)) ?_) _
    split
    · exact .line _ (Stmts.framed (depth + 2) otherwise)
    · exact .nil
  | .loop _ label head body => by
    rw [Stmt.pieces]
    exact .closed (.ofLines _ (.line _ (Stmts.framed (depth + 1) body))) _

theorem Stmts.framed (depth : Nat) : (ss : List Stmt) → Framed y (Stmts.pieces y depth ss)
  | [] => by
    rw [Stmts.pieces]
    exact .nil
  | s :: ss => by
    rw [Stmts.pieces]
    exact (Stmt.framed depth s).append (Stmts.framed depth ss)

theorem Block.framed (depth : Nat) (outermost : Bool) : (b : Block) → Framed y (b.pieces y depth outermost)
  | ⟨start, label, body, handlers⟩ => by
    rw [Block.pieces, Block.inside]
    exact .block depth ⟨start, label, body, handlers⟩
      (.closed (.append (Stmts.framed (depth + 1) body) (Handlers.framed? depth handlers)) _)

theorem Handlers.framed? (depth : Nat) : (hs : Option (List Handler)) →
    Framed y (Handlers.pieces? y depth hs)
  | none => by
    rw [Handlers.pieces?]
    exact .nil
  | some hs => by
    rw [Handlers.pieces?]
    exact .line _ (Handlers.framed depth hs)

theorem Handlers.framed (depth : Nat) : (hs : List Handler) → Framed y (Handlers.pieces y depth hs)
  | [] => by
    rw [Handlers.pieces]
    exact .nil
  | ⟨_, conditions, action⟩ :: hs => by
    rw [Handlers.pieces]
    exact .append (.line _ (Stmts.framed (depth + 2) action)) (Handlers.framed depth hs)

theorem Arms.framed_conditional (depth : Nat) : (as : List Arm) →
    Framed y (Arms.conditionalPieces y depth as)
  | [] => by
    rw [Arms.conditionalPieces]
    exact .nil
  | ⟨_, condition, body⟩ :: as => by
    rw [Arms.conditionalPieces]
    exact .append (.line _ (Stmts.framed (depth + 1) body)) (Arms.framed_conditional depth as)

theorem Arms.framed_choice (depth : Nat) (hasOperand : Bool) : (as : List Arm) →
    Framed y (Arms.choicePieces y depth hasOperand as)
  | [] => by
    rw [Arms.choicePieces]
    exact .nil
  | ⟨_, condition, body⟩ :: as => by
    rw [Arms.choicePieces]
    exact .append (.line _ (Stmts.framed (depth + 2) body)) (Arms.framed_choice depth hasOperand as)

end
end

/-! ## Routines -/

namespace Layout

variable {y : Layout}

theorem fill_append (places : List (List Nat)) (ps qs : List Piece) :
    y.fill places (ps ++ qs) = y.fill places ps ++ y.fill (places.drop (sections ps).length) qs := by
  induction ps generalizing places with
  | nil => rfl
  | cons p ps ih =>
    cases p with
    | line l => exact congrArg (l :: ·) (ih places)
    | declare depth b =>
      rw [List.cons_append, fill, fill, ih, sections_declare, List.length_cons, List.append_assoc,
        ← List.drop_one, List.drop_drop, Nat.add_comm]

/-- The lines are the pieces with the planned places in the sections, and nothing is left of the plan. -/
theorem laid_eq (h : ∀ s ∈ y.function.action.preorder, s.KeepsElse) :
    y.laid = (y.fill y.function.sectionPlaces (y.function.action.pieces y 0 true), []) := by
  have hsections : sections (y.function.action.inside y 0 true) = y.function.blocks.tail :=
    Block.sections_inside y.function.action h
  rw [laid, Block.lines_eq_settle, settle_eq, hsections, Function.leftBy_nested, Block.pieces,
    fill_ofLines_append, List.append_assoc]
  rfl

/-- The section of the block with the number stands in the lines between the label of the block and its
`BEGIN`, after the sections of the blocks before it, and declares the data in the places `own`. -/
def HasSection (y : Layout) (places : List (List Nat)) (k : Nat) (b : Block) (own : List Nat) : Prop :=
  ∃ (depth : Nat) (before after : List Piece) (declared : List Line),
    sections before = y.function.blocks.take k ∧
      y.function.action.pieces y 0 true = before ++ (ofLines (labelLines depth b.label) ++
        .declare depth b :: .line ⟨depth, y.keyword "BEGIN"⟩ :: after) ∧
      y.Declares depth own declared ∧
      y.lines = y.fill places before ++ (labelLines depth b.label ++
        (declared ++ ⟨depth, y.keyword "BEGIN"⟩ :: y.fill (places.drop (k + 1)) after))

/-- The routine declares what is planned, with the places in the sections of its blocks: one list of places
for each block. -/
structure DeclaresPlan (y : Layout) (places : List (List Nat)) : Prop where
  length : places.length = y.function.blocks.length
  lines : y.lines = y.fill places (y.function.action.pieces y 0 true)
  hasSection : ∀ k b, y.function.blocks[k]? = some b →
    ∃ own, places[k]? = some own ∧ y.HasSection places k b own
  planned : places.flatten.Perm (Plan.ofFunction y.function).places
  once : places.flatten.Nodup
  outermost : places[0]? = some (Plan.ofFunction y.function).topLevel
  nested : ∀ entry ∈ (Plan.ofFunction y.function).nested,
    ∃ k, y.function.blocks.findIdx? (fun b => b.line = entry.1) = some k ∧ places[k]? = some entry.2

theorem hasSection_sectionPlaces (h : ∀ s ∈ y.function.action.preorder, s.KeepsElse) {k : Nat} {b : Block}
    (hb : y.function.blocks[k]? = some b) :
    ∃ own, y.function.sectionPlaces[k]? = some own ∧ y.HasSection y.function.sectionPlaces k b own := by
  have hk : k < y.function.sectionPlaces.length := by
    rw [Function.length_sectionPlaces]
    exact (List.getElem?_eq_some_iff.1 hb).1
  refine ⟨y.function.sectionPlaces[k], List.getElem?_eq_getElem hk, ?_⟩
  have hsections := sections_pieces_eq_blocks_of_keepsElse h
  obtain ⟨depth, before, after, hbefore, hpieces⟩ :=
    (Block.framed y 0 true y.function.action).split (hsections ▸ hb)
  rw [hsections] at hbefore
  refine ⟨depth, before, after, _, hbefore, hpieces, declares_declarations ?_, ?_⟩
  · intro i hi
    obtain ⟨d, hd, hdeclarable⟩ := Function.isDeclarable_of_mem_sectionPlaces (List.getElem_mem hk) hi
    exact Function.declaration_of_isDeclarable y hd hdeclarable
  · have hlength : (sections before).length = k := by
      rw [hbefore, List.length_take]
      exact Nat.min_eq_left (Nat.le_of_lt (List.getElem?_eq_some_iff.1 hb).1)
    rw [Layout.lines, laid_eq h, hpieces]
    show y.fill _ _ = _
    rw [fill_append, fill_ofLines_append, hlength, fill, List.drop_eq_getElem_cons hk]
    rfl

end Layout

/-- **Every planned declaration is made once.** Unless statements are left out of its layout, a routine
uses up its plan, whatever lines its blocks stand in. The places in its sections are those of the plan, each
once; what is planned for a line stands in the section of the first block in that line, between the label
of the block and its `BEGIN`. -/
theorem planned_declarations_are_made_once {y : Layout}
    (h : ∀ s ∈ y.function.action.preorder, s.KeepsElse) :
    y.laid.2 = [] ∧ ∃ places, y.DeclaresPlan places := by
  have hlaid := Layout.laid_eq h
  refine ⟨by rw [hlaid], y.function.sectionPlaces, ?_⟩
  have hperm := y.function.sectionPlaces_perm.trans y.function.places_perm
  exact {
    length := y.function.length_sectionPlaces
    lines := by rw [Layout.lines, hlaid]
    hasSection := fun k b hb => Layout.hasSection_sectionPlaces h hb
    planned := y.function.sectionPlaces_perm
    once := hperm.nodup_iff.2 y.function.nodup_declared
    outermost := rfl
    nested := fun entry hentry => Function.exists_sectionPlaces hentry }

/-! ### Two blocks in one line -/

/-- Two variables before a line with two blocks, one in a conditional and one in the last statements of a
`CASE`. -/
def sharedLine : Function :=
  ⟨[.scalar ⟨"total", 2, some (.raw "integer"), false, false, none, none, none, 0⟩,
      .scalar ⟨"share", 5, some (.raw "integer"), false, false, none, none, none, 0⟩,
      .record ⟨"latest", none, 5, none⟩],
    ⟨3, none,
      [.conditional 4 (.raw "total > 0" .expression)
        [.block ⟨6, some "split", [.simple 6 (.commit false)], none⟩] [] [],
        .choice 6 none 0 [⟨6, .raw "done" .expression, []⟩] true
          [.block ⟨6, none, [.simple 7 (.rollback false)], none⟩]],
      none⟩⟩

theorem planned_declarations_are_made_once_sharedLine :
    sharedLine.blocks.map Block.line = [3, 6, 6] ∧ Plan.ofFunction sharedLine = ⟨[0], [(6, [1, 2])]⟩ ∧
      (sharedLine.layout none true).laid.2 = [] ∧
      ∃ places, (sharedLine.layout none true).DeclaresPlan places := by
  refine ⟨by decide, by decide, planned_declarations_are_made_once ?_⟩
  intro s hs
  simp only [Function.layout, sharedLine, Block.preorder, Stmts.preorder, Stmt.preorder, Arms.preorder,
    Handlers.preorder?, List.nil_append, List.append_nil, List.cons_append, List.mem_cons,
    List.not_mem_nil, or_false] at hs
  rcases hs with rfl | rfl | rfl | rfl | rfl | rfl <;> simp [Stmt.KeepsElse]

end Routine
