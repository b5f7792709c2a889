import Routine.Proofs.Sections

/-!
# Declarations stand in their scope

A parse tree has no scopes. Where a datum is declared is guessed from lines: the nearest block that begins
after it. On source text in which blocks and declarations do not share lines the guess is right.

The argument has three parts that meet in `declare_sections_are_scopes`:

* the owner that is guessed from sorted lines is the block that the datum stands before
  (`Function.owner?_of_owns`), so the plan lists for each block what it owns (`Function.ownedBy_key`);
* the open sections of the layout are those of the blocks, in order (`Stmt.sections_pieces`);
* no two blocks share a line, so each section gets what is planned for its block
  (`Layout.settle_eq_fill`).
-/

namespace Routine

open Piece

/-! ## Sorted lines -/

theorem insertLine_of_lt {line : Int32} {ls : List Int32} (h : ∀ l ∈ ls, line < l) :
    insertLine line ls = line :: ls := by
  cases ls with
  | nil => rfl
  | cons l ls => rw [insertLine, if_pos (h l List.mem_cons_self)]

theorem ascending_of_pairwise {lines : List Int32} (h : lines.Pairwise (· < ·)) :
    ascending lines = lines := by
  induction lines with
  | nil => rfl
  | cons l ls ih =>
    obtain ⟨hl, hls⟩ := List.pairwise_cons.1 h
    have htail : ls.foldr insertLine [] = ls := ih hls
    rw [ascending, List.foldr_cons, htail, insertLine_of_lt hl]

theorem nodup_of_pairwise_lt {lines : List Int32} (h : lines.Pairwise (· < ·)) : lines.Nodup := by
  refine h.imp ?_
  intro a b hlt heq
  exact Int32.lt_irrefl (heq ▸ hlt)

/-- A line between two neighbours comes after the first of all, and the second neighbour is the nearest
after it. -/
theorem find?_of_between {first a b line : Int32} {ls : List Int32} {k : Nat}
    (h : (first :: ls).Pairwise (· < ·)) (ha : (first :: ls)[k]? = some a) (hb : ls[k]? = some b)
    (hab : a < line ∧ line < b) : first < line ∧ ls.find? (line < ·) = some b := by
  induction k generalizing first ls with
  | zero =>
    cases ls with
    | nil => cases hb
    | cons l ls =>
      obtain rfl := Option.some.inj ha
      obtain rfl := Option.some.inj hb
      exact ⟨hab.1, List.find?_cons_of_pos (by simpa using hab.2)⟩
  | succ k ih =>
    cases ls with
    | nil => cases hb
    | cons l ls =>
      obtain ⟨hfirst, hls⟩ := List.pairwise_cons.1 h
      obtain ⟨hl, hfind⟩ := ih hls ha hb
      refine ⟨Int32.lt_trans (hfirst l List.mem_cons_self) hl, ?_⟩
      rw [List.find?_cons_of_neg (by simpa using Int32.le_of_lt hl), hfind]

/-! ## Owners -/

namespace Function

/-- The blocks of a routine: the outermost one, and then each before those inside it. -/
def blocks (f : Function) : List Block :=
  f.action :: f.action.preorder.filterMap Stmt.block?

/-- The block with the number owns the datum: the datum stands before the `BEGIN` of the block and after
that of the block before it. -/
def owns (f : Function) : Nat → Datum → Bool
  | 0, d => d.line ≤ f.action.line
  | k + 1, d =>
    match f.blocks[k]?, f.blocks[k + 1]? with
    | some before, some b => before.line < d.line && d.line < b.line
    | _, _ => false

/-- The places of the declarable data that the block with the number owns, in the order of the table. -/
def owned (f : Function) (k : Nat) : List Nat :=
  (f.data.zipIdx.filter fun (d, i) => f.isDeclarable i d && f.owns k d).map Prod.snd

/-- Lines tell the scopes of the routine: blocks begin one after the other, no statements are left out of
the layout, and every declarable datum stands between blocks. -/
structure LinesTellScopes (f : Function) : Prop where
  ascending : (f.blocks.map Block.line).Pairwise (· < ·)
  keepsElse : ∀ s ∈ f.action.preorder, s.KeepsElse
  owner : ∀ d i, (d, i) ∈ f.data.zipIdx → f.isDeclarable i d = true → ∃ k, f.owns k d = true

/-- How the plan refers to the block with the number. -/
def key (f : Function) : Nat → Option Int32
  | 0 => none
  | k + 1 => f.blocks[k + 1]?.map Block.line

variable {f : Function}

theorem lt_length_of_owns {k : Nat} {d : Datum} (h : f.owns k d = true) : k < f.blocks.length := by
  cases k with
  | zero => exact Nat.zero_lt_succ _
  | succ k =>
    rw [owns] at h
    split at h
    · next hb => exact (List.getElem?_eq_some_iff.1 hb).1
    · cases h

theorem filterMap_blockLine? (ss : List Stmt) :
    ss.filterMap Stmt.blockLine? = (ss.filterMap Stmt.block?).map Block.line := by
  rw [List.map_filterMap]
  congr 1
  funext s
  cases s <;> rfl

theorem blockLines_eq (h : (f.blocks.map Block.line).Pairwise (· < ·)) :
    f.action.blockLines = (f.action.preorder.filterMap Stmt.block?).map Block.line := by
  rw [Block.blockLines, filterMap_blockLine?]
  exact ascending_of_pairwise (List.pairwise_cons.1 h).2

/-- The block that the plan finds for a datum is the one that owns it. -/
theorem owner?_of_owns (h : (f.blocks.map Block.line).Pairwise (· < ·)) {k : Nat} {d : Datum}
    (hd : f.owns k d = true) : f.owner? d = f.key k := by
  cases k with
  | zero =>
    have hle : ¬ f.action.line < d.line := by
      rw [Int32.not_lt]
      simpa [owns] using hd
    rw [owner?, if_neg hle, key]
  | succ k =>
    rw [owns] at hd
    split at hd
    · next before b hbefore hb =>
      have hbetween : before.line < d.line ∧ d.line < b.line := by simpa using hd
      have hbefore' : (f.blocks.map Block.line)[k]? = some before.line := by
        rw [List.getElem?_map, hbefore, Option.map_some]
      have hb' : ((f.action.preorder.filterMap Stmt.block?).map Block.line)[k]? = some b.line := by
        rw [List.getElem?_map]
        exact congrArg (Option.map Block.line) hb
      -- The datum stands between two blocks that begin one after the other, so the search stops there.
      obtain ⟨houter, hfind⟩ := find?_of_between h hbefore' hb' hbetween
      rw [owner?, if_pos houter, blockLines_eq h, hfind, key, hb, Option.map_some]
    · cases hd

theorem key_injective (h : (f.blocks.map Block.line).Pairwise (· < ·)) {k k' : Nat}
    (hk : k < f.blocks.length) (hk' : k' < f.blocks.length) (heq : f.key k = f.key k') : k = k' := by
  have hnodup : (f.blocks.map Block.line).Nodup := nodup_of_pairwise_lt h
  cases k with
  | zero =>
    cases k' with
    | zero => rfl
    | succ k' => simp [key, List.getElem?_eq_getElem hk'] at heq
  | succ k =>
    cases k' with
    | zero => simp [key, List.getElem?_eq_getElem hk] at heq
    | succ k' =>
      simp only [key, ← List.getElem?_map] at heq
      exact (List.getElem?_inj (by simpa using hk) hnodup).1 heq

/-- What the plan lists under the block with the number is what the block owns. -/
theorem ownedBy_key (h : f.LinesTellScopes) {k : Nat} (hk : k < f.blocks.length) :
    Plan.ownedBy (f.key k) f.declared = f.owned k := by
  have howner : ∀ x ∈ f.data.zipIdx, (f.isDeclarable x.2 x.1 && f.owner? x.1 == f.key k) =
      (f.isDeclarable x.2 x.1 && f.owns k x.1) := by
    rintro ⟨d, i⟩ hmem
    cases hdeclarable : f.isDeclarable i d with
    | false => rfl
    | true =>
      obtain ⟨j, hj⟩ := h.owner d i hmem hdeclarable
      have hkey : f.owner? d = f.key j := owner?_of_owns h.ascending hj
      rw [Bool.true_and, Bool.true_and, Bool.eq_iff_iff, beq_iff_eq, hkey]
      constructor
      · intro heq
        rwa [← key_injective h.ascending (lt_length_of_owns hj) hk heq]
      · intro hown
        rw [← hkey, owner?_of_owns h.ascending hown]
  simp only [Plan.ownedBy, declared, owned, List.filter_map, List.filter_filter, List.map_map,
    Function.comp_def]
  refine congrArg _ (List.filter_congr fun x hx => ?_)
  rw [Bool.and_comm, howner x hx]

end Function

/-! ## The plan -/

namespace Pending

theorem find_cons_self (entry : Int32 × List Nat) (p : Pending) : find entry.1 (entry :: p) = entry.2 := by
  rw [find, List.find?_cons_of_pos (by simp)]
  rfl

theorem find_cons_of_ne {line : Int32} {entry : Int32 × List Nat} (h : entry.1 ≠ line) (p : Pending) :
    find line (entry :: p) = p.find line := by
  rw [find, List.find?_cons_of_neg (by simpa using h), find]

/-- What is planned for a line, of what is planned for lines with anything to declare. -/
theorem find_planned (g : Int32 → List Nat) (ls : List Int32) (line : Int32) :
    find line ((ls.map fun l => (l, g l)).filter fun entry => !entry.2.isEmpty) =
      if line ∈ ls then g line else [] := by
  induction ls with
  | nil => rfl
  | cons l ls ih =>
    rw [List.map_cons, List.filter_cons]
    by_cases hl : l = line
    · subst hl
      rw [if_pos List.mem_cons_self]
      split
      · exact find_cons_self (l, g l) _
      · next hempty =>
        -- A line with nothing to declare is left out, and nothing is what is found for it.
        have hnone : g l = [] := by simpa using hempty
        rw [ih, hnone, ite_self]
    · have hmem : line ∈ l :: ls ↔ line ∈ ls := by
        rw [List.mem_cons]
        exact or_iff_right fun heq => hl heq.symm
      simp only [hmem]
      split
      · rw [find_cons_of_ne hl, ih]
      · exact ih

end Pending

namespace Function

variable {f : Function}

theorem topLevel_eq_owned (h : f.LinesTellScopes) : (Plan.ofFunction f).topLevel = f.owned 0 :=
  ownedBy_key h (Nat.zero_lt_succ _)

/-- The plan for the line of a nested block is what the block owns. -/
theorem find_nested_eq_owned (h : f.LinesTellScopes) {k : Nat} {b : Block}
    (hb : (f.action.preorder.filterMap Stmt.block?)[k]? = some b) :
    Pending.find b.line (Plan.ofFunction f).nested = f.owned (k + 1) := by
  have hlength : k + 1 < f.blocks.length := Nat.succ_lt_succ (List.getElem?_eq_some_iff.1 hb).1
  have hmem : b.line ∈ f.action.blockLines := by
    rw [blockLines_eq h.ascending]
    exact List.mem_map_of_mem (List.mem_of_getElem? hb)
  have hkey : f.key (k + 1) = some b.line := congrArg (Option.map Block.line) hb
  have hfind : Pending.find b.line (Plan.ofFunction f).nested =
      if b.line ∈ f.action.blockLines then Plan.ownedBy (some b.line) f.declared else [] :=
    Pending.find_planned (fun line => Plan.ownedBy (some line) f.declared) f.action.blockLines b.line
  rw [hfind, if_pos hmem, ← hkey, ownedBy_key h hlength]

end Function

/-! ## Lines of a section -/

namespace Layout

variable {y : Layout}

/-- The lines declare the data in the places: the keyword, and then one declaration after the other in
the order of the places. Without places there are no lines. -/
def Declares (y : Layout) (depth : Nat) (places : List Nat) (ls : List Line) : Prop :=
  (places = [] ∧ ls = []) ∨
    ∃ texts : List String, places ≠ [] ∧
      places.map (fun i => y.function.data[i]?.bind y.declaration) = texts.map some ∧
      ls = ⟨depth, y.keyword "DECLARE"⟩ :: texts.map fun text => ⟨depth + 1, text⟩

theorem exists_texts {places : List Nat}
    (h : ∀ i ∈ places, ∃ text, y.function.data[i]?.bind y.declaration = some text) :
    ∃ texts : List String, places.map (fun i => y.function.data[i]?.bind y.declaration) = texts.map some := by
  induction places with
  | nil => exact ⟨[], rfl⟩
  | cons i is ih =>
    obtain ⟨hi, his⟩ := List.forall_mem_cons.1 h
    obtain ⟨text, htext⟩ := hi
    obtain ⟨texts, htexts⟩ := ih his
    exact ⟨text :: texts, by rw [List.map_cons, htext, htexts, List.map_cons]⟩

/-- Data that have declarations are declared, each of them. -/
theorem declares_declarations {depth : Nat} {places : List Nat}
    (h : ∀ i ∈ places, ∃ text, y.function.data[i]?.bind y.declaration = some text) :
    y.Declares depth places (y.declarations depth places) := by
  cases places with
  | nil => exact .inl ⟨rfl, rfl⟩
  | cons i is =>
    obtain ⟨texts, htexts⟩ := exists_texts h
    refine .inr ⟨texts, List.cons_ne_nil i is, htexts, ?_⟩
    have hlines : (i :: is).filterMap (fun i => (y.function.data[i]?.bind y.declaration).map
        (Line.mk (depth + 1))) = texts.map (Line.mk (depth + 1)) := by
      have hsome : (texts.map some).filterMap (Option.map (Line.mk (depth + 1))) =
          texts.map (Line.mk (depth + 1)) := by
        rw [List.filterMap_map, ← List.filterMap_eq_map]
        rfl
      rw [← hsome, ← htexts, List.filterMap_map]
      rfl
    exact congrArg _ hlines

theorem fill_ofLines_append (sections : List (List Nat)) (ls : List Line) (ps : List Piece) :
    y.fill sections (ofLines ls ++ ps) = ls ++ y.fill sections ps := by
  induction ls with
  | nil => rfl
  | cons l ls ih => exact congrArg (l :: ·) ih

/-- The lines of the routine are its pieces, with the sections of nested blocks settled from the plan. -/
theorem lines_eq_settle (y : Layout) :
    y.lines = labelLines 0 y.function.action.label ++
      y.declarations 0 (Plan.ofFunction y.function).topLevel ++
      (y.settle (Plan.ofFunction y.function).nested (y.function.action.inside y 0 true)).1 := by
  simp only [lines, laid]
  rw [Block.lines_eq_settle]

end Layout

namespace Function

variable {f : Function}

theorem declaration_of_isVariable (y : Layout) {d : Datum} (h : isVariable d = true) :
    ∃ text, y.declaration d = some text := by
  cases d with
  | scalar v =>
    simp only [Layout.declaration]
    cases v.cursorQuery with
    | none => exact ⟨_, rfl⟩
    | some query => exact ⟨_, rfl⟩
  | record r => exact ⟨_, rfl⟩
  | row r => cases h
  | field a => cases h

theorem declaration_of_isDeclarable (y : Layout) {i : Nat} {d : Datum} (hd : (d, i) ∈ y.function.data.zipIdx)
    (h : y.function.isDeclarable i d = true) :
    ∃ text, y.function.data[i]?.bind y.declaration = some text := by
  have hvariable : isVariable d = true := by
    simp only [isDeclarable, Bool.and_eq_true] at h
    exact h.1.1.1.1
  obtain ⟨text, htext⟩ := declaration_of_isVariable y hvariable
  exact ⟨text, by rw [List.mem_zipIdx_iff_getElem?.1 hd, Option.bind_some, htext]⟩

theorem declaration_of_mem_owned (y : Layout) {k i : Nat} (h : i ∈ y.function.owned k) :
    ∃ text, y.function.data[i]?.bind y.declaration = some text := by
  obtain ⟨⟨d, j⟩, hmem, rfl⟩ := List.mem_map.1 h
  obtain ⟨hzip, howned⟩ := List.mem_filter.1 hmem
  exact declaration_of_isDeclarable y hzip (Bool.and_eq_true _ _ ▸ howned).1

/-- What is planned for the nested blocks, one after the other, is what they own. -/
theorem map_find_nested (h : f.LinesTellScopes) :
    ((f.action.preorder.filterMap Stmt.block?).map fun b =>
        Pending.find b.line (Plan.ofFunction f).nested) =
      (List.range (f.action.preorder.filterMap Stmt.block?).length).map fun k => f.owned (k + 1) := by
  apply List.ext_getElem
  · simp
  · intro k hk hk'
    rw [List.getElem_map, List.getElem_map, List.getElem_range]
    exact find_nested_eq_owned h (List.getElem?_eq_getElem _)

end Function

/-! ## Routines -/

namespace Layout

variable {y : Layout}

theorem sections_inside_eq (h : y.function.LinesTellScopes) :
    sections (y.function.action.inside y 0 true) = y.function.action.preorder.filterMap Stmt.block? :=
  Block.sections_inside y.function.action h.keepsElse

theorem sections_pieces_eq_blocks_of_keepsElse (h : ∀ s ∈ y.function.action.preorder, s.KeepsElse) :
    sections (y.function.action.pieces y 0 true) = y.function.blocks := by
  rw [Block.pieces, sections_append, sections_ofLines, sections_declare, Block.sections_inside _ h]
  rfl

theorem sections_pieces_eq_blocks (h : y.function.LinesTellScopes) :
    sections (y.function.action.pieces y 0 true) = y.function.blocks :=
  sections_pieces_eq_blocks_of_keepsElse h.keepsElse

/-- Each section is filled with what its block owns. -/
theorem lines_eq_fill (h : y.function.LinesTellScopes) :
    y.lines = y.fill ((List.range y.function.blocks.length).map y.function.owned)
      (y.function.action.pieces y 0 true) := by
  have hnodup : ((sections (y.function.action.inside y 0 true)).map Block.line).Nodup := by
    rw [sections_inside_eq h]
    exact (List.nodup_cons.1 (nodup_of_pairwise_lt h.ascending)).2
  have hsections : (List.range y.function.blocks.length).map y.function.owned =
      y.function.owned 0 :: (List.range (y.function.action.preorder.filterMap Stmt.block?).length).map
        fun k => y.function.owned (k + 1) := by
    rw [Function.blocks, List.length_cons, List.range_succ_eq_map, List.map_cons, List.map_map]
    rfl
  rw [lines_eq_settle, settle_eq_fill y hnodup, sections_inside_eq h, Function.map_find_nested h,
    Function.topLevel_eq_owned h, hsections, Block.pieces, fill_ofLines_append, fill, List.append_assoc]
  rfl

end Layout

/-- **Declarations stand in their scope.** Where lines tell the scopes of a routine, its body is made of its
pieces, whose open sections are those of its blocks in order, and the section of each block declares what
the block owns: one declaration for each place in the order of the table, and no section where there is
nothing to declare. -/
theorem declare_sections_are_scopes {f : Function} (h : f.LinesTellScopes) (b : Sql.Backend) (format : Format)
    (kind : Option ReturnKind) :
    sections (f.action.pieces (f.layout kind format.capitals b) 0 true) = f.blocks ∧
      f.body format kind b = format.join ((f.layout kind format.capitals b).fill
        ((List.range f.blocks.length).map f.owned) (f.action.pieces (f.layout kind format.capitals b) 0 true)) ∧
      ∀ k depth, (f.layout kind format.capitals b).Declares depth (f.owned k)
        ((f.layout kind format.capitals b).declarations depth (f.owned k)) := by
  refine ⟨Layout.sections_pieces_eq_blocks (y := f.layout kind format.capitals b) h, ?_, ?_⟩
  · exact congrArg format.join (Layout.lines_eq_fill (y := f.layout kind format.capitals b) h)
  · intro k depth
    exact Layout.declares_declarations fun i hi =>
      Function.declaration_of_mem_owned (f.layout kind format.capitals b) hi

/-! ### A block inside a `CASE`, and one inside a handler -/

/-- Three variables: of the routine, of a block in the last statements of a `CASE`, and of a block in a
handler. -/
def retry : Function :=
  ⟨[.scalar ⟨"attempts", 2, some (.raw "integer"), false, false, none, none, none, 0⟩,
      .scalar ⟨"delay", 7, some (.raw "interval"), false, false, none, none, none, 0⟩,
      .record ⟨"failure", none, 13, none⟩],
    ⟨3, none,
      [.choice 4 none 0 [⟨5, .raw "done" .expression, []⟩] true
        [.block ⟨8, some "wait", [.simple 9 (.commit false)], none⟩]],
      some [⟨12, ["others"], [.block ⟨14, none, [.simple 15 (.rollback false)], none⟩]⟩]⟩⟩

theorem declare_sections_are_scopes_retry :
    retry.LinesTellScopes ∧ (List.range retry.blocks.length).map retry.owned = [[0], [1], [2]] ∧
      retry.body {} none = Format.join {} ((retry.layout none true).fill [[0], [1], [2]]
        (retry.action.pieces (retry.layout none true) 0 true)) := by
  have hscopes : retry.LinesTellScopes := by
    refine ⟨by decide, ?_, ?_⟩
    · intro s hs
      simp only [retry, Block.preorder, Stmts.preorder, Stmt.preorder, Arms.preorder,
        Handlers.preorder?, Handlers.preorder, List.nil_append, List.append_nil, List.cons_append,
        List.mem_cons, List.not_mem_nil, or_false] at hs
      rcases hs with rfl | rfl | rfl | rfl | rfl <;> simp [Stmt.KeepsElse]
    · intro d i hmem _
      simp only [retry, List.zipIdx_cons, List.zipIdx_nil, List.mem_cons, List.not_mem_nil, or_false,
        Prod.mk.injEq] at hmem
      rcases hmem with ⟨rfl, rfl⟩ | ⟨rfl, rfl⟩ | ⟨rfl, rfl⟩
      · exact ⟨0, by decide⟩
      · exact ⟨1, by decide⟩
      · exact ⟨2, by decide⟩
  obtain ⟨-, hbody, -⟩ := declare_sections_are_scopes hscopes .postgres {} none
  exact ⟨hscopes, by decide, hbody⟩

end Routine
