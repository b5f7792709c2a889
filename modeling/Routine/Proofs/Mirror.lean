import Routine.Proofs.Placement

/-!
# Lines mirror statements

All lines of a routine are laid out one after the other, and nothing in them says which statement they belong to. But
they can be read as a tree. The lines of a statement are a *chunk* (`IsChunk`): no line in it is less deep than the
first and the last, and the last ends in a semicolon. A chunk has lines of its own, and between them the chunks of the
statements directly inside, each once and in the order of the bodies (`Stmt.lines_eq_assemble`, `Stmt.inner_front`). The
only statements without a chunk are the last ones of a `CASE` that says it has none (`Stmt.shown`).

What is said about one statement and those directly inside it holds at every depth, because it holds for every
statement and every plan. That all lines of a chunk are deep enough is the one thing that goes through the whole tree,
by induction from the statements inside to those around them (`Stmt.induction`).
-/

namespace Routine

/-- The lines of a statement at a depth: the first and the last are at the depth, none is less deep, and the last ends
in a semicolon. -/
structure IsChunk (depth : Nat) (ls : List Line) : Prop where
  first : ∃ l ∈ ls.head?, l.depth = depth
  last : ∃ l ∈ ls.getLast?, l.depth = depth ∧ l.text.toList.getLast? = some ';'
  deep : ∀ l ∈ ls, depth ≤ l.depth

/-! ## Statements directly inside -/

/-- The statement is a `CASE` that says it has no last statements. Those that it has are not laid out. -/
def Stmt.hidesElse : Stmt → Bool
  | .choice _ _ _ _ hasElse _ => !hasElse
  | _ => false

/-- The bodies that are laid out. -/
def Stmt.shown (s : Stmt) : List (List Stmt) :=
  if s.hidesElse then s.bodies.dropLast else s.bodies

/-- How much deeper than the block its bodies are: those of handlers by two. -/
def Block.steps (b : Block) : List Nat :=
  1 :: (b.handlers.getD []).map fun _ => 2

/-- How much deeper than the statement its bodies are: those of handlers and of a `CASE` by two. -/
def Stmt.steps : Stmt → List Nat
  | .block b => b.steps
  | .simple .. => []
  | .conditional _ _ _ arms _ => 1 :: arms.map (fun _ => 1) ++ [1]
  | .choice _ _ _ arms _ _ => arms.map (fun _ => 2) ++ [2]
  | .loop .. => [1]

/-- The statements of the bodies, in order and with their depths. -/
def atDepths (depth : Nat) (bodies : List (List Stmt)) (steps : List Nat) : List (Nat × Stmt) :=
  (bodies.zip steps).flatMap fun (body, step) => body.map (depth + step, ·)

/-- What is planned for the statements inside. -/
def Stmt.planInside (pending : Pending) : Stmt → Pending
  | .block b => pending.erase b.line
  | _ => pending

theorem mem_of_mem_atDepths {depth : Nat} {bodies : List (List Stmt)} {steps : List Nat} {x : Nat × Stmt}
    (h : x ∈ atDepths depth bodies steps) : ∃ body ∈ bodies, x.2 ∈ body := by
  obtain ⟨⟨body, step⟩, hmem, hx⟩ := List.mem_flatMap.1 h
  obtain ⟨s, hs, rfl⟩ := List.mem_map.1 hx
  exact ⟨body, (List.of_mem_zip hmem).1, hs⟩

theorem atDepths_cons (depth : Nat) (body : List Stmt) (bodies : List (List Stmt)) (step : Nat) (steps : List Nat) :
    atDepths depth (body :: bodies) (step :: steps) =
      body.map (depth + step, ·) ++ atDepths depth bodies steps := rfl

theorem atDepths_append {depth : Nat} {bodies bodies' : List (List Stmt)} {steps steps' : List Nat}
    (h : bodies.length = steps.length) :
    atDepths depth (bodies ++ bodies') (steps ++ steps') =
      atDepths depth bodies steps ++ atDepths depth bodies' steps' := by
  rw [atDepths, List.zip_append h, List.flatMap_append, atDepths, atDepths]

/-- Bodies that are all as deep. -/
theorem atDepths_map {α : Type} (depth step : Nat) (body : α → List Stmt) (xs : List α) :
    atDepths depth (xs.map body) (xs.map fun _ => step) =
      xs.flatMap fun x => (body x).map (depth + step, ·) := by
  rw [atDepths, List.zip_map', List.flatMap_map]

/-- A property of statements holds if it passes from the statements directly inside a statement to it. -/
theorem Stmt.induction {P : Stmt → Prop} (step : ∀ s : Stmt, (∀ inner, s.Directly inner → P inner) → P s)
    (s : Stmt) : P s := by
  induction hlength : s.preorder.length using Nat.strongRecOn generalizing s with
  | ind length ih =>
    refine step s ?_
    intro inner hinner
    exact ih _ (hlength ▸ Stmt.length_preorder_lt hinner) inner rfl

theorem Stmt.directly_of_mem_atDepths {s : Stmt} {depth : Nat} {x : Nat × Stmt}
    (h : x ∈ atDepths depth s.shown s.steps) : s.Directly x.2 := by
  obtain ⟨body, hbody, hx⟩ := mem_of_mem_atDepths h
  refine ⟨body, ?_, hx⟩
  rw [Stmt.shown] at hbody
  split at hbody
  · exact List.dropLast_subset _ hbody
  · exact hbody

/-! ## Segments -/

/-- A part of the lines of a statement: a line of its own, or the chunk of a statement inside. -/
inductive Segment where
  | own (l : Line)
  | inner (depth : Nat) (s : Stmt)

namespace Segment

/-- The depth that a segment starts at. -/
def depth : Segment → Nat
  | own l => l.depth
  | inner depth _ => depth

/-- The statement that a segment is the chunk of, with its depth. -/
def inner? : Segment → Option (Nat × Stmt)
  | own _ => none
  | inner depth s => some (depth, s)

/-- The chunks of statements at one depth. -/
def inners (depth : Nat) (ss : List Stmt) : List Segment := ss.map (inner depth)

/-- Lines that each have the chunks of statements under them, at one depth. -/
def headed (depth : Nat) (parts : List (Line × List Stmt)) : List Segment :=
  parts.flatMap fun (l, body) => own l :: inners depth body

theorem headed_nil (depth : Nat) : headed depth [] = [] := rfl

theorem headed_append (depth : Nat) (parts parts' : List (Line × List Stmt)) :
    headed depth (parts ++ parts') = headed depth parts ++ headed depth parts' :=
  List.flatMap_append

@[simp]
theorem filterMap_inners (depth : Nat) (ss : List Stmt) :
    (inners depth ss).filterMap inner? = ss.map (depth, ·) := by
  rw [inners, List.filterMap_map]
  exact congrFun (List.filterMap_eq_map ..) ss

@[simp]
theorem filterMap_map_own (ls : List Line) : (ls.map own).filterMap inner? = [] := by
  induction ls with
  | nil => rfl
  | cons l ls ih => exact ih

@[simp]
theorem filterMap_own (l : Line) (segments : List Segment) :
    (own l :: segments).filterMap inner? = segments.filterMap inner? := rfl

@[simp]
theorem filterMap_headed (depth : Nat) (parts : List (Line × List Stmt)) :
    (headed depth parts).filterMap inner? = parts.flatMap fun p => p.2.map (depth, ·) := by
  simp [headed, List.filterMap_flatMap]

theorem mem_filterMap_inner {depth : Nat} {s : Stmt} {segments : List Segment} (h : inner depth s ∈ segments) :
    (depth, s) ∈ segments.filterMap inner? :=
  List.mem_filterMap.2 ⟨_, h, rfl⟩

/-- The segments start with a line at the depth, and none starts less deep. -/
structure Leads (depth : Nat) (segments : List Segment) : Prop where
  first : ∀ g ∈ segments.head?, ∃ l, g = own l ∧ l.depth = depth
  deep : ∀ g ∈ segments, depth ≤ g.depth

theorem le_depth_of_mem_headed {depth k : Nat} {parts : List (Line × List Stmt)} (hk : depth ≤ k)
    (hheads : ∀ p ∈ parts, depth ≤ p.1.depth) : ∀ g ∈ headed k parts, depth ≤ g.depth := by
  intro g hg
  obtain ⟨p, hp, hg⟩ := List.mem_flatMap.1 hg
  rcases List.mem_cons.1 hg with rfl | hg
  · exact hheads p hp
  · obtain ⟨s, -, rfl⟩ := List.mem_map.1 hg
    exact hk

theorem Leads.cons {depth : Nat} {l : Line} {segments : List Segment} (hl : l.depth = depth)
    (hdeep : ∀ g ∈ segments, depth ≤ g.depth) : Leads depth (own l :: segments) where
  first := by
    rintro g ⟨⟩
    exact ⟨l, rfl, hl⟩
  deep := List.forall_mem_cons.2 ⟨Nat.le_of_eq hl.symm, hdeep⟩

theorem Leads.append {depth : Nat} {segments segments' : List Segment} (h : Leads depth segments)
    (h' : Leads depth segments') : Leads depth (segments ++ segments') where
  first := by
    cases segments with
    | nil => exact h'.first
    | cons g segments => exact h.first
  deep := List.forall_mem_append.2 ⟨h.deep, h'.deep⟩

theorem Leads.headed {depth k : Nat} {l : Line} {body : List Stmt} {parts : List (Line × List Stmt)}
    (hk : depth ≤ k) (hl : l.depth = depth) (hheads : ∀ p ∈ parts, depth ≤ p.1.depth) :
    Leads depth (headed k ((l, body) :: parts)) := by
  refine .cons hl fun g hg => ?_
  have hmem : g ∈ Segment.headed k ((l, body) :: parts) := List.mem_cons_of_mem _ hg
  exact le_depth_of_mem_headed hk (List.forall_mem_cons.2 ⟨Nat.le_of_eq hl.symm, hheads⟩) g hmem

end Segment

open Segment

namespace Layout

variable (y : Layout)

/-- The segments laid out one after the other. Each statement takes what is planned for it and leaves the rest to those
after it. -/
def assemble (pending : Pending) : List Segment → Laid
  | [] => ([], pending)
  | .own l :: segments =>
    let (rest, pending) := assemble pending segments
    (l :: rest, pending)
  | .inner depth s :: segments =>
    let (first, pending) := s.lines y depth pending
    let (rest, pending) := assemble pending segments
    (first ++ rest, pending)

theorem assemble_append (pending : Pending) (segments segments' : List Segment) :
    y.assemble pending (segments ++ segments') =
      ((y.assemble pending segments).1 ++ (y.assemble (y.assemble pending segments).2 segments').1,
        (y.assemble (y.assemble pending segments).2 segments').2) := by
  induction segments generalizing pending with
  | nil => rfl
  | cons segment segments ih =>
    cases segment with
    | own l => simp only [List.cons_append, assemble, ih]
    | inner depth s => simp only [List.cons_append, assemble, ih, List.append_assoc]

theorem assemble_map_own (pending : Pending) (ls : List Line) : y.assemble pending (ls.map own) = (ls, pending) := by
  induction ls with
  | nil => rfl
  | cons l ls ih => rw [List.map_cons, assemble, ih]

variable {y}

/-- No line is less deep than the depth that its segment starts at, if the chunks of statements are deep enough. -/
theorem le_depth_of_mem_assemble {depth : Nat} {segments : List Segment} (hdeep : ∀ g ∈ segments, depth ≤ g.depth)
    (hinner : ∀ k s, .inner k s ∈ segments → ∀ pending, ∀ l ∈ (s.lines y k pending).1, k ≤ l.depth)
    (pending : Pending) : ∀ l ∈ (y.assemble pending segments).1, depth ≤ l.depth := by
  induction segments generalizing pending with
  | nil => exact nofun
  | cons segment segments ih =>
    obtain ⟨hfirst, hrest⟩ := List.forall_mem_cons.1 hdeep
    have hlater := ih hrest fun k s hs => hinner k s (List.mem_cons_of_mem _ hs)
    intro l hl
    cases segment with
    | own own =>
      rcases List.mem_cons.1 hl with rfl | hl
      · exact hfirst
      · exact hlater _ l hl
    | inner k s =>
      rcases List.mem_append.1 hl with hl | hl
      · exact Nat.le_trans hfirst (hinner k s List.mem_cons_self pending l hl)
      · exact hlater _ l hl

/-- Segments that start with a line at the depth and end with one that has a semicolon make a chunk. -/
theorem isChunk_assemble {depth : Nat} {segments : List Segment} (hleads : Leads depth segments)
    (hinner : ∀ k s, .inner k s ∈ segments → ∀ pending, ∀ l ∈ (s.lines y k pending).1, k ≤ l.depth)
    (pending : Pending) (text : String) :
    IsChunk depth (y.assemble pending (segments ++ [.own ⟨depth, text ++ ";"⟩])).1 := by
  have hlines : (y.assemble pending (segments ++ [.own ⟨depth, text ++ ";"⟩])).1 =
      (y.assemble pending segments).1 ++ [⟨depth, text ++ ";"⟩] := by
    rw [assemble_append]
    rfl
  rw [hlines]
  refine ⟨?_, ⟨_, List.getLast?_concat, rfl, by simp⟩, ?_⟩
  · cases segments with
    | nil => exact ⟨_, rfl, rfl⟩
    | cons g segments =>
      obtain ⟨l, rfl, hl⟩ := hleads.first g rfl
      exact ⟨l, rfl, hl⟩
  · intro l hl
    rcases List.mem_append.1 hl with hl | hl
    · exact le_depth_of_mem_assemble hleads.deep hinner pending l hl
    · obtain rfl := List.mem_singleton.1 hl
      exact Nat.le_refl depth

end Layout

/-! ## The segments of a statement -/

section

variable (y : Layout)

/-- A further arm of a conditional. -/
def Arm.conditionalPart (depth : Nat) (a : Arm) : Line × List Stmt :=
  (⟨depth, spaced [y.keyword "ELSIF", y.leaf a.condition, y.keyword "THEN"]⟩, a.body)

/-- An arm of a `CASE`. -/
def Arm.choicePart (depth : Nat) (hasOperand : Bool) (a : Arm) : Line × List Stmt :=
  (⟨depth + 1, spaced [y.keyword "WHEN", y.armCondition hasOperand a.condition, y.keyword "THEN"]⟩, a.body)

/-- A handler. -/
def Handler.part (depth : Nat) (h : Handler) : Line × List Stmt :=
  (⟨depth + 1, y.handlerHead h.conditions⟩, h.action)

/-- The segments of handlers, if there are any. -/
def Handlers.segments? (depth : Nat) : Option (List Handler) → List Segment
  | none => []
  | some hs => .own ⟨depth, y.keyword "EXCEPTION"⟩ :: headed (depth + 2) (hs.map (Handler.part y depth))

/-- The segments of a block with the declarations of the data in the places, up to its `END`. -/
def Block.front (depth : Nat) (places : List Nat) (b : Block) : List Segment :=
  (Layout.labelLines depth b.label ++ y.declarations depth places).map .own ++
    headed (depth + 1) [(⟨depth, y.keyword "BEGIN"⟩, b.body)] ++ Handlers.segments? y depth b.handlers

/-- The segments of a statement up to its last line. -/
def Stmt.front (depth : Nat) (pending : Pending) : Stmt → List Segment
  | .block b => b.front y depth (pending.find b.line)
  | .simple _ _ => []
  | .conditional _ condition body arms otherwise =>
    headed (depth + 1)
      ((⟨depth, spaced [y.keyword "IF", y.leaf condition, y.keyword "THEN"]⟩, body) ::
        arms.map (Arm.conditionalPart y depth) ++
        if otherwise.isEmpty then [] else [(⟨depth, y.keyword "ELSE"⟩, otherwise)])
  | .choice _ operand _ arms hasElse otherwise =>
    .own ⟨depth, y.caseHead operand⟩ :: headed (depth + 2)
      (arms.map (Arm.choicePart y depth operand.isSome) ++
        if hasElse then [(⟨depth + 1, y.keyword "ELSE"⟩, otherwise)] else [])
  | .loop _ label head body =>
    (Layout.labelLines depth label).map .own ++ headed (depth + 1) [(⟨depth, y.head head⟩, body)]

/-- The last line of a statement, without its semicolon. -/
def Stmt.ending : Stmt → String
  | .block b => y.closing "END" b.label
  | .simple _ s => y.simple s
  | .conditional .. => y.keyword "END IF"
  | .choice .. => y.keyword "END CASE"
  | .loop _ label _ _ => y.closing "END LOOP" label

/-! ### They are laid out in order -/

theorem Layout.keyword_semicolon (words : String) : y.keyword (words ++ ";") = y.keyword words ++ ";" := by
  unfold Layout.keyword
  split
  · simp [Text.uppercase, Text.upper]
  · simp [Text.lowercase, Text.lower]

theorem Stmts.lines_eq_assemble (depth : Nat) (pending : Pending) (ss : List Stmt) :
    Stmts.lines y depth pending ss = y.assemble pending (inners depth ss) := by
  induction ss generalizing pending with
  | nil => rw [Stmts.lines]; rfl
  | cons s ss ih => simp only [Stmts.lines, ih, inners, List.map_cons, Layout.assemble]

theorem Layout.assemble_headed_cons (pending : Pending) (k : Nat) (l : Line) (body : List Stmt)
    (parts : List (Line × List Stmt)) :
    y.assemble pending (headed k ((l, body) :: parts)) =
      (l :: (Stmts.lines y k pending body).1 ++
          (y.assemble (Stmts.lines y k pending body).2 (headed k parts)).1,
        (y.assemble (Stmts.lines y k pending body).2 (headed k parts)).2) := by
  simp only [headed, List.flatMap_cons, List.cons_append, assemble, assemble_append, Stmts.lines_eq_assemble]

theorem Arms.conditionalLines_eq_assemble (depth : Nat) (pending : Pending) (as : List Arm) :
    Arms.conditionalLines y depth pending as =
      y.assemble pending (headed (depth + 1) (as.map (Arm.conditionalPart y depth))) := by
  induction as generalizing pending with
  | nil => rw [Arms.conditionalLines]; rfl
  | cons a as ih =>
    obtain ⟨line, condition, body⟩ := a
    simp only [Arms.conditionalLines, List.map_cons, Arm.conditionalPart, Layout.assemble_headed_cons, ih]

theorem Arms.choiceLines_eq_assemble (depth : Nat) (hasOperand : Bool) (pending : Pending) (as : List Arm) :
    Arms.choiceLines y depth hasOperand pending as =
      y.assemble pending (headed (depth + 2) (as.map (Arm.choicePart y depth hasOperand))) := by
  induction as generalizing pending with
  | nil => rw [Arms.choiceLines]; rfl
  | cons a as ih =>
    obtain ⟨line, condition, body⟩ := a
    simp only [Arms.choiceLines, List.map_cons, Arm.choicePart, Layout.assemble_headed_cons, ih]

theorem Handlers.lines_eq_assemble (depth : Nat) (pending : Pending) (hs : List Handler) :
    Handlers.lines y depth pending hs =
      y.assemble pending (headed (depth + 2) (hs.map (Handler.part y depth))) := by
  induction hs generalizing pending with
  | nil => rw [Handlers.lines]; rfl
  | cons h hs ih =>
    obtain ⟨line, conditions, action⟩ := h
    simp only [Handlers.lines, List.map_cons, Handler.part, Layout.assemble_headed_cons, ih]

theorem Handlers.lines?_eq_assemble (depth : Nat) (pending : Pending) (hs : Option (List Handler)) :
    Handlers.lines? y depth pending hs = y.assemble pending (Handlers.segments? y depth hs) := by
  cases hs with
  | none => rw [Handlers.lines?]; rfl
  | some hs => simp only [Handlers.lines?, Handlers.segments?, Layout.assemble, Handlers.lines_eq_assemble]

theorem Block.lines_eq_assemble (depth : Nat) (places : List Nat) (outermost : Bool) (pending : Pending) (b : Block) :
    b.lines y depth places outermost pending =
      y.assemble pending (b.front y depth places ++
        [.own ⟨depth, y.closing "END" b.label ++ (if outermost then "" else ";")⟩]) := by
  obtain ⟨line, label, body, handlers⟩ := b
  simp only [Block.lines, Block.front, Layout.assemble_append, Layout.assemble_map_own, Layout.assemble_headed_cons,
    Handlers.lines?_eq_assemble, headed_nil, Layout.assemble, List.append_nil, List.append_assoc, List.cons_append]

theorem Stmt.lines_eq_assemble (depth : Nat) (pending : Pending) (s : Stmt) :
    s.lines y depth pending =
      y.assemble (s.planInside pending) (s.front y depth pending ++ [.own ⟨depth, s.ending y ++ ";"⟩]) := by
  cases s with
  | block b =>
    rw [Stmt.lines, Block.lines_eq_assemble]
    rfl
  | simple line s =>
    rw [Stmt.lines]
    rfl
  | conditional line condition body arms otherwise =>
    have hend : y.keyword "END IF;" = y.keyword "END IF" ++ ";" := y.keyword_semicolon "END IF"
    simp only [Stmt.lines, Stmt.front, Stmt.planInside, Stmt.ending, hend, headed_append, Layout.assemble_append,
      Layout.assemble_headed_cons, Arms.conditionalLines_eq_assemble, List.cons_append, List.append_assoc]
    cases otherwise with
    | nil => simp [Stmts.lines, headed_nil, Layout.assemble]
    | cons s ss => simp [Layout.assemble_headed_cons, headed_nil, Layout.assemble]
  | choice line operand number arms hasElse otherwise =>
    have hend : y.keyword "END CASE;" = y.keyword "END CASE" ++ ";" := y.keyword_semicolon "END CASE"
    simp only [Stmt.lines, Stmt.front, Stmt.planInside, Stmt.ending, hend, headed_append, Layout.assemble_append,
      Layout.assemble, Arms.choiceLines_eq_assemble, List.cons_append, List.append_assoc]
    cases hasElse with
    | false => simp [headed_nil, Layout.assemble]
    | true => simp [Layout.assemble_headed_cons, headed_nil, Layout.assemble]
  | loop line label head body =>
    simp only [Stmt.lines, Stmt.front, Stmt.planInside, Stmt.ending, Layout.assemble_append, Layout.assemble_map_own,
      Layout.assemble_headed_cons, headed_nil, Layout.assemble, List.append_nil, List.append_assoc, List.cons_append]

/-! ### They hold the statements of the bodies -/

variable {y}

theorem Handlers.inner_segments? (depth : Nat) (hs : Option (List Handler)) :
    (Handlers.segments? y depth hs).filterMap inner? =
      atDepths depth ((hs.getD []).map Handler.action) ((hs.getD []).map fun _ => 2) := by
  cases hs with
  | none => rfl
  | some hs =>
    rw [Option.getD_some, atDepths_map, Handlers.segments?, filterMap_own, filterMap_headed, List.flatMap_map]
    rfl

theorem Block.inner_front (depth : Nat) (places : List Nat) (b : Block) :
    (b.front y depth places).filterMap inner? = atDepths depth b.bodies b.steps := by
  rw [Block.front, List.filterMap_append, List.filterMap_append, filterMap_map_own, filterMap_headed,
    Handlers.inner_segments?, Block.bodies, Block.steps, atDepths_cons]
  simp

theorem Stmt.inner_front (depth : Nat) (pending : Pending) (s : Stmt) :
    (s.front y depth pending).filterMap inner? = atDepths depth s.shown s.steps := by
  cases s with
  | block b => exact b.inner_front depth _
  | simple line s => rfl
  | conditional line condition body arms otherwise =>
    rw [Stmt.front, filterMap_headed]
    show _ = atDepths depth (body :: (arms.map Arm.body ++ [otherwise])) (1 :: (arms.map (fun _ => 1) ++ [1]))
    rw [atDepths_cons, atDepths_append (by simp), atDepths_map]
    cases otherwise with
    | nil => simp [Arm.conditionalPart, List.flatMap_map, atDepths]
    | cons s ss => simp [Arm.conditionalPart, List.flatMap_map, atDepths]
  | choice line operand number arms hasElse otherwise =>
    have harms (last : List (List Stmt)) : atDepths depth (arms.map Arm.body ++ last) (arms.map (fun _ => 2) ++ [2]) =
        (arms.flatMap fun a => a.body.map (depth + 2, ·)) ++ atDepths depth last [2] := by
      rw [atDepths_append (by simp), atDepths_map]
    rw [Stmt.front, filterMap_own, filterMap_headed, List.flatMap_append, List.flatMap_map]
    cases hasElse with
    | false =>
      -- There may be statements after the arms, but they have no lines.
      have hshown : Stmt.shown (.choice line operand number arms false otherwise) = arms.map Arm.body ++ [] := by
        simp [Stmt.shown, Stmt.hidesElse, Stmt.bodies]
      rw [hshown, Stmt.steps, harms]
      rfl
    | true => exact (harms [otherwise]).symm
  | loop line label head body =>
    rw [Stmt.front, List.filterMap_append, filterMap_map_own, filterMap_headed]
    rfl

/-! ### They make a chunk -/

theorem Layout.leads_labelLines (depth : Nat) (label : Option String) :
    Leads depth ((Layout.labelLines depth label).map .own) := by
  cases label with
  | none => exact ⟨nofun, nofun⟩
  | some label => exact .cons rfl nofun

theorem Layout.leads_declarations (depth : Nat) (places : List Nat) :
    Leads depth ((y.declarations depth places).map .own) := by
  rw [Layout.declarations]
  split
  · exact ⟨nofun, nofun⟩
  · refine .cons rfl ?_
    intro g hg
    obtain ⟨l, hl, rfl⟩ := List.mem_map.1 hg
    obtain ⟨i, -, hi⟩ := List.mem_filterMap.1 hl
    obtain ⟨text, -, rfl⟩ := Option.map_eq_some_iff.1 hi
    exact Nat.le_succ depth

theorem Handlers.leads_segments? (depth : Nat) (hs : Option (List Handler)) :
    Leads depth (Handlers.segments? y depth hs) := by
  cases hs with
  | none => exact ⟨nofun, nofun⟩
  | some hs =>
    refine .cons rfl (le_depth_of_mem_headed (Nat.le_add_right depth 2) ?_)
    exact List.forall_mem_map.2 fun _ _ => Nat.le_succ depth

theorem Block.leads_front (depth : Nat) (places : List Nat) (b : Block) : Leads depth (b.front y depth places) := by
  rw [Block.front, List.map_append]
  refine .append (.append (.append (Layout.leads_labelLines depth b.label) (Layout.leads_declarations depth places)) ?_)
    (Handlers.leads_segments? depth b.handlers)
  exact .headed (Nat.le_succ depth) rfl nofun

theorem Stmt.leads_front (depth : Nat) (pending : Pending) (s : Stmt) : Leads depth (s.front y depth pending) := by
  cases s with
  | block b => exact b.leads_front depth _
  | simple line s => exact ⟨nofun, nofun⟩
  | conditional line condition body arms otherwise =>
    refine .headed (Nat.le_succ depth) rfl (List.forall_mem_append.2 ⟨?_, ?_⟩)
    · exact List.forall_mem_map.2 fun _ _ => Nat.le_refl depth
    · split
      · exact nofun
      · exact List.forall_mem_singleton.2 (Nat.le_refl depth)
  | choice line operand number arms hasElse otherwise =>
    refine .cons rfl (le_depth_of_mem_headed (Nat.le_add_right depth 2) (List.forall_mem_append.2 ⟨?_, ?_⟩))
    · exact List.forall_mem_map.2 fun _ _ => Nat.le_succ depth
    · split
      · exact List.forall_mem_singleton.2 (Nat.le_succ depth)
      · exact nofun
  | loop line label head body =>
    exact .append (Layout.leads_labelLines depth label) (.headed (Nat.le_succ depth) rfl nofun)

theorem Stmt.isChunk (s : Stmt) (depth : Nat) (pending : Pending) : IsChunk depth (s.lines y depth pending).1 := by
  induction s using Stmt.induction generalizing depth pending with
  | step s ih =>
    rw [Stmt.lines_eq_assemble]
    refine Layout.isChunk_assemble (s.leads_front depth pending) ?_ _ _
    intro k inner hinner pending'
    have hmem := mem_filterMap_inner hinner
    rw [Stmt.inner_front] at hmem
    exact (ih inner (Stmt.directly_of_mem_atDepths hmem) k pending').deep

end

/-! ## The whole routine -/

theorem Block.length_steps (b : Block) : b.steps.length = b.bodies.length := by
  simp [Block.steps, Block.bodies]

theorem Stmt.length_steps (s : Stmt) : s.steps.length = s.bodies.length := by
  cases s with
  | block b => exact b.length_steps
  | _ => simp [Stmt.steps, Stmt.bodies]

theorem Layout.closing_eq_spaced (y : Layout) (words : String) (label : Option String) :
    y.closing words label = spaced (y.keyword words :: label.toList) := by
  cases label with
  | none => rfl
  | some label => simp [Layout.closing, spaced, String.intercalate_cons_cons]

theorem Layout.laid_eq_assemble (y : Layout) :
    y.laid = y.assemble (Plan.ofFunction y.function).nested
      (y.function.action.front y 0 (Plan.ofFunction y.function).topLevel ++
        [.own ⟨0, spaced (y.keyword "END" :: y.function.action.label.toList)⟩]) := by
  rw [Layout.laid, Block.lines_eq_assemble, Layout.closing_eq_spaced]
  simp

/-- **The lines of a routine can be read as its tree.** Whatever the plan, the lines of a statement at a depth are a
chunk. It is put together from lines of the statement and the chunks of the statements in its bodies, each once, in
order, and deeper by the step of its body. None is left out but the last statements of a `CASE` that says it has none.
The lines of a routine are put together from its outermost block in the same way, and end in a line with `END` and the
label of the block. -/
theorem lines_mirror_statements (y : Layout) :
    (∀ (s : Stmt) (depth : Nat) (pending : Pending),
      IsChunk depth (s.lines y depth pending).1 ∧
        s.steps.length = s.bodies.length ∧
        ∃ segments, s.lines y depth pending = y.assemble (s.planInside pending) segments ∧
          segments.filterMap Segment.inner? = atDepths depth s.shown s.steps) ∧
    (∃ segments, y.laid = y.assemble (Plan.ofFunction y.function).nested segments ∧
      y.function.action.steps.length = y.function.action.bodies.length ∧
      segments.filterMap Segment.inner? = atDepths 0 y.function.action.bodies y.function.action.steps) ∧
    y.lines.getLast? = some ⟨0, spaced (y.keyword "END" :: y.function.action.label.toList)⟩ := by
  refine ⟨fun s depth pending => ⟨s.isChunk depth pending, s.length_steps, ?_⟩, ?_, ?_⟩
  · refine ⟨_, Stmt.lines_eq_assemble y depth pending s, ?_⟩
    rw [List.filterMap_append, Stmt.inner_front]
    exact List.append_nil _
  · refine ⟨_, y.laid_eq_assemble, Block.length_steps _, ?_⟩
    rw [List.filterMap_append, Block.inner_front]
    exact List.append_nil _
  · rw [Layout.lines, Layout.laid_eq_assemble, Layout.assemble_append]
    exact List.getLast?_concat

end Routine
