import Routine.Proofs.GapsAndWords
import Routine.Proofs.IntoPlace
import Routine.Proofs.Swallow
import Routine.Proofs.Wording

/-!
# Words after the texts of a routine

A body has the texts that the routine holds at certain places (`Function.Place`), with words of the layout after
them. After each of them comes a mark, and marks end tokens (`Phrase.fenced`, `Mark.ends`); only the operand of
a `CASE` ends its line. What is written of a closed text can be cut (`IsClosed.exists_cut`). Together they say
when the words after a place are lost: `words_after_a_leaf_are_swallowed_iff`.
-/

namespace Routine
namespace Sql

open Text (isBlank)
open Lexer

/-! ## What is written of a text -/

theorem strip_append_blank {b : Char} (hb : isBlank b = true) (cs : List Char) :
    Text.strip (cs ++ [b]) = Text.strip cs := by
  simp only [Text.strip, Text.dropBlanks, Text.dropBlanksEnd, List.dropWhile_append, List.isEmpty_iff]
  split
  · next hnil => simp [hnil, hb]
  · simp [hb]

/-- The letters of `SELECT`, in either case. -/
theorem isWordPart_of_select {cs : List Char} (h : cs.map Text.lower = ['s', 'e', 'l', 'e', 'c', 't']) :
    ∀ c ∈ cs, isWordPart c = true := by
  intro c hc
  have hletters : (['s', 'e', 'l', 'e', 'c', 't'].all fun a =>
      isWordPart a && isWordPart (Text.upper a)) = true := by
    decide
  have hlower : isWordPart (Text.lower c) = true ∧ isWordPart (Text.upper (Text.lower c)) = true :=
    Bool.and_eq_true_iff.1 (List.all_eq_true.1 hletters _ (h ▸ List.mem_map_of_mem hc))
  rcases Text.eq_lower_or_upper c with hsmall | hcapital
  · rw [hsmall]
    exact hlower.1
  · rw [hcapital]
    exact hlower.2

/-- A word that starts with `s` opens no string and no operator. -/
theorem step_s {c : Char} (hc : c = 's' ∨ c = 'S') (cs : List Char) : step c cs = .ok (wordFrom [c] cs) := by
  rcases hc with rfl | rfl
  · exact step_word (by decide) rfl
  · exact step_word (by decide) rfl

/-- A `SELECT` that a text starts with is its first token. -/
theorem Cut.after_select {ls : List Lexeme} (h : Cut [] ls) {word cs : List Char} {c : Char}
    (hspelled : spelled ls = word ++ c :: cs) (hword : word.map Text.lower = ['s', 'e', 'l', 'e', 'c', 't'])
    (hc : isWordChar c = false) : ∃ ls', Cut [] ls' ∧ spelled ls' = c :: cs := by
  obtain _ | ⟨a, word⟩ := word
  · cases hword
  have hfirst : a = 's' ∨ a = 'S' := by
    have hlower : Text.lower a = 's' := (List.cons.inj hword).1
    rcases Text.eq_lower_or_upper a with hsmall | hcapital
    · exact .inl (hsmall.trans hlower)
    · rw [hlower] at hcapital
      exact .inr hcapital
  have hletters := isWordPart_of_select hword
  have hstop : isWordPart c = false :=
    Bool.eq_false_iff.2 fun hpart => absurd (isWordChar_of_isWordPart hpart) (by rw [hc]; decide)
  have htail : (word ++ c :: cs).takeWhile isWordPart = word := by
    rw [List.takeWhile_append_of_pos fun d hd => hletters d (List.mem_cons_of_mem _ hd),
      List.takeWhile_cons_of_neg (by rw [hstop]; decide), List.append_nil]
  obtain _ | ⟨l, ls⟩ := ls
  · cases hspelled
  obtain ⟨⟨b, bs, hsource, hstep⟩, hls⟩ := h
  rw [spelled_cons, hsource, List.cons_append, List.cons_append] at hspelled
  obtain ⟨rfl, hrest⟩ := List.cons.inj hspelled
  rw [List.append_nil, hrest, step_s hfirst, wordFrom, htail] at hstep
  have hlength : bs.length = word.length := (Prod.mk.inj (Except.ok.inj hstep)).2.symm
  exact ⟨ls, hls, (List.append_inj hrest hlength).2⟩

theorem Cut.dropSelect {ls : List Lexeme} (h : Cut [] ls) {text : String} (htext : spelled ls = text.toList) :
    ∃ ls', Cut [] ls' ∧ spelled ls' = (dropSelect text).toList := by
  obtain ⟨ms, hms, hspelled, -⟩ := h.dropBlanks
  rw [htext] at hspelled
  unfold Sql.dropSelect
  dsimp only
  split
  · next hselect =>
    rw [← hspelled] at hselect ⊢
    split
    · exact ⟨[], trivial, rfl⟩
    · next c rest hdrop =>
      split
      · exact ⟨ls, h, htext⟩
      · next hc =>
        have hword : ((spelled ms).take 6).map Text.lower = ['s', 'e', 'l', 'e', 'c', 't'] := by
          have hpre := List.prefix_iff_eq_take.1 (List.isPrefixOf_iff_prefix.1 hselect)
          rw [List.map_take]
          exact hpre.symm
        have hsplit : spelled ms = (spelled ms).take 6 ++ c :: rest := by
          rw [← hdrop, List.take_append_drop]
        obtain ⟨ls', hls', hrest⟩ := hms.after_select hsplit hword (by simpa using hc)
        obtain ⟨js, hjs, hjoined, -⟩ := hls'.dropBlanks
        exact ⟨js, hjs, by rw [hjoined, hrest, String.toList_ofList]⟩
  · exact ⟨ls, h, htext⟩

end Sql

open Sql

/-- The text can be cut when its line ends after it. -/
def IsClosed (source : String) : Prop :=
  (tokens? (source.toList ++ ['\n'])).isSome = true

/-- What is written of a closed text can be cut. -/
theorem IsClosed.exists_cut {source : String} (h : IsClosed source) (extract : Extract) :
    ∃ ls, Cut [] ls ∧ spelled ls = (extract.of source).toList := by
  obtain ⟨ts, hts⟩ := Option.isSome_iff_exists.1 h
  have htrim := tokens?_strip hts
  rw [strip_append_blank (by decide)] at htrim
  obtain ⟨ls, ⟨hls, hspelled⟩, -⟩ := tokens?_eq_some_iff.1 htrim
  have htext : spelled ls = (Text.trim source).toList := by rw [hspelled, Text.trim, String.toList_ofList]
  have hlexemes : lexemes (Text.trim source).toList = .ok ls := lexemes_eq_ok_iff.2 ⟨hls, htext⟩
  cases extract with
  | verbatim =>
    obtain ⟨ms, ⟨hms, hline⟩, -⟩ := tokens?_eq_some_iff.1 hts
    obtain ⟨js, hjs, hsource, -⟩ := hms.shed (by decide) hline
    exact ⟨js, hjs, hsource⟩
  | trimmed => exact ⟨ls, hls, htext⟩
  | selection =>
    rw [Extract.of]
    exact hls.dropSelect htext
  | beforeInto =>
    rw [Extract.of]
    split
    · next before after hplacement =>
      obtain ⟨ts, us, hsplits, -⟩ := IntoClause.tokens?_pieces hlexemes hplacement
      obtain ⟨ms, hms, -⟩ := tokens?_eq_some_iff.1 hsplits.before
      exact ⟨ms, hms⟩
    · exact ⟨[], trivial, rfl⟩
  | afterInto =>
    rw [Extract.of]
    split
    · next before after hplacement =>
      obtain ⟨ts, us, hsplits, -⟩ := IntoClause.tokens?_pieces hlexemes hplacement
      obtain ⟨ms, hms, -⟩ := tokens?_eq_some_iff.1 (tokens?_strip hsplits.after)
      exact ⟨ms, by rw [Text.trim, String.toList_ofList]; exact hms⟩
    · exact ⟨[], trivial, rfl⟩

theorem IsClosed.isSome_tokens? {source : String} (h : IsClosed source) (extract : Extract) :
    (tokens? (extract.of source).toList).isSome = true := by
  obtain ⟨ls, hls, hspelled⟩ := h.exists_cut extract
  rw [← hspelled, tokens?_spelled hls]
  rfl

/-! ## Places in a body -/

/-- A place in the body of a routine where a text that it holds is written. -/
structure Function.Place (f : Function) (kind : Option ReturnKind) (backend : Backend := .postgres) where
  above : List Draft
  draft : Draft
  below : List Draft
  before : List Part
  source : String
  extract : Extract
  after : List Part
  drafts_eq : f.drafts kind backend = above ++ draft :: below
  parts_eq : draft.phrase.parts = before ++ .leaf source extract :: after

theorem Mark.ends (m : Mark) (text : String) : Lexer.Ends (m.text ++ text).toList := by
  cases m <;> simp [Mark.text, Lexer.Ends, Lexer.stops]

theorem intercalate_cons (separator x : String) (ys : List String) :
    String.intercalate separator (x :: ys) = x ++ String.join (ys.map (separator ++ ·)) := by
  induction ys generalizing x with
  | nil => simp
  | cons y ys ih => simp [String.intercalate_cons_cons, ih, String.join_cons, String.append_assoc]

theorem intercalate_append_cons (separator : String) (xs : List String) (x : String) (ys : List String) :
    String.intercalate separator (xs ++ x :: ys) =
      String.join (xs.map (· ++ separator)) ++ (x ++ String.join (ys.map (separator ++ ·))) := by
  induction xs with
  | nil => simp [intercalate_cons]
  | cons y xs ih =>
    obtain ⟨z, zs, hzs⟩ : ∃ z zs, xs ++ x :: ys = z :: zs := List.exists_cons_of_ne_nil (by simp)
    rw [List.cons_append, hzs, String.intercalate_cons_cons, ← hzs, ih]
    simp [String.join_cons, String.append_assoc]

/-! ## Texts at the end of a line -/

namespace Phrase

/-- The phrase does not end in a text of the routine. -/
def IsEnded (p : Phrase) : Prop :=
  ∀ source extract, p.parts.getLast? ≠ some (.leaf source extract)

@[simp]
theorem isEnded_word (words : String) : (word words).IsEnded := nofun

@[simp]
theorem isEnded_own (text : String) : (own text).IsEnded := nofun

theorem IsEnded.marked {q : Phrase} (h : q.IsEnded) (p : Phrase) (m : Mark) : (p.marked m q).IsEnded := by
  intro source extract hlast
  rw [Phrase.marked, List.getLast?_append, List.getLast?_cons] at hlast
  cases hq : q.parts.getLast? with
  | none =>
    rw [hq] at hlast
    cases hlast
  | some part =>
    rw [hq] at hlast
    exact h source extract (hq.trans hlast)

@[simp]
theorem isEnded_ended (p : Phrase) (m : Mark) : (p.ended m).IsEnded :=
  IsEnded.marked (by simp [IsEnded, empty]) p m

theorem isEnded_spaced {ps : List Phrase} (h : ∀ p ∈ ps.getLast?, p.IsEnded) : (spaced ps).IsEnded := by
  unfold spaced
  fun_induction separated .blank ps with
  | case1 => simp [IsEnded, empty]
  | case2 p => exact h p rfl
  | case3 p q ps ih => exact (ih (by rwa [List.getLast?_cons_cons] at h)).marked p .blank

end Phrase

namespace Subject

variable (s : Subject)

/-- The line ends in a word or a sign, or it is the head of a `CASE` with its operand. -/
def Closes (d : Draft) : Prop :=
  d.phrase.IsEnded ∨ ∃ operand, d.phrase = s.caseHead (some operand)

theorem isEnded_closing (words : String) (label : Option String) : (closing words label).IsEnded := by
  refine Phrase.isEnded_spaced ?_
  cases label <;> simp

theorem isEnded_declaration {d : Datum} {p : Phrase} (h : s.declaration d = some p) : p.IsEnded := by
  unfold declaration at h
  split at h
  · split at h
    · cases h
      exact Phrase.isEnded_ended _ _
    · cases h
      exact Phrase.isEnded_ended _ _
  · cases h
    exact Phrase.isEnded_ended _ _
  · cases h
  · cases h

theorem isEnded_head (head : LoopHead) : (s.head head).IsEnded := by
  cases head with
  | forever => exact Phrase.isEnded_word _
  | _ =>
    refine Phrase.isEnded_spaced ?_
    simp [List.getLast?_append, List.getLast?_cons]

variable {s}

theorem closes_of_isEnded {depth : Nat} {p : Phrase} (h : p.IsEnded) : s.Closes ⟨depth, p⟩ := .inl h

theorem closes_word (depth : Nat) (words : String) : s.Closes ⟨depth, .word words⟩ :=
  closes_of_isEnded (Phrase.isEnded_word words)

theorem closes_spaced_word (depth : Nat) (ps : List Phrase) (words : String) :
    s.Closes ⟨depth, .spaced (ps ++ [.word words])⟩ := by
  refine closes_of_isEnded (Phrase.isEnded_spaced ?_)
  simp

theorem closes_labelDrafts (depth : Nat) (label : Option String) :
    ∀ d ∈ labelDrafts depth label, s.Closes d := by
  cases label with
  | none => simp [labelDrafts]
  | some label => simp [labelDrafts, closes_of_isEnded]

theorem closes_declarations (depth : Nat) (places : List Nat) :
    ∀ d ∈ s.declarations depth places, s.Closes d := by
  unfold declarations
  split
  · simp
  · intro d hd
    rcases List.mem_cons.1 hd with rfl | hd
    · exact closes_word depth _
    · obtain ⟨i, -, hi⟩ := List.mem_filterMap.1 hd
      obtain ⟨p, hp, rfl⟩ := Option.map_eq_some_iff.1 hi
      obtain ⟨datum, -, hdatum⟩ := Option.bind_eq_some_iff.1 hp
      exact closes_of_isEnded (isEnded_declaration s hdatum)

end Subject

section

variable {s : Subject}

open Subject

mutual

theorem Stmt.closes_drafts (depth : Nat) (pending : Pending) :
    (x : Stmt) → ∀ d ∈ (x.drafts s depth pending).1, s.Closes d
  | .block b => Block.closes_drafts depth _ false _ b
  | .simple _ x => by
    simp [Stmt.drafts, closes_of_isEnded]
  | .conditional _ condition body arms otherwise => by
    simp only [Stmt.drafts, List.forall_mem_append, List.forall_mem_cons]
    refine ⟨⟨⟨⟨?_, Stmts.closes_drafts _ _ body⟩, Arms.closes_conditionalDrafts _ _ arms⟩, ?_⟩,
      closes_word _ _, nofun⟩
    · exact closes_spaced_word depth [.word "IF", s.leaf condition] "THEN"
    · split
      · exact nofun
      · exact List.forall_mem_cons.2 ⟨closes_word _ _, Stmts.closes_drafts _ _ otherwise⟩
  | .choice _ operand _ arms hasElse otherwise => by
    have hhead : s.Closes ⟨depth, s.caseHead operand⟩ := by
      cases operand with
      | none => exact closes_word _ _
      | some operand => exact .inr ⟨operand, rfl⟩
    have harms := Arms.closes_choiceDrafts depth operand.isSome pending arms
    simp only [Stmt.drafts]
    split
    · simp only [List.forall_mem_append, List.forall_mem_cons]
      exact ⟨⟨⟨hhead, harms⟩, closes_word _ _, Stmts.closes_drafts _ _ otherwise⟩, closes_word _ _, nofun⟩
    · simp only [List.forall_mem_append, List.forall_mem_cons]
      exact ⟨⟨hhead, harms⟩, closes_word _ _, nofun⟩
  | .loop _ label head body => by
    simp only [Stmt.drafts, List.forall_mem_append, List.forall_mem_cons]
    exact ⟨⟨closes_labelDrafts depth label, closes_of_isEnded (isEnded_head s head),
      Stmts.closes_drafts _ _ body⟩, closes_of_isEnded (Phrase.isEnded_ended _ _), nofun⟩

theorem Stmts.closes_drafts (depth : Nat) (pending : Pending) :
    (xs : List Stmt) → ∀ d ∈ (Stmts.drafts s depth pending xs).1, s.Closes d
  | [] => nofun
  | x :: xs => by
    simp only [Stmts.drafts, List.forall_mem_append]
    exact ⟨Stmt.closes_drafts _ _ x, Stmts.closes_drafts _ _ xs⟩

theorem Block.closes_drafts (depth : Nat) (places : List Nat) (outermost : Bool) (pending : Pending) :
    (b : Block) → ∀ d ∈ (b.drafts s depth places outermost pending).1, s.Closes d
  | ⟨_, label, body, handlers⟩ => by
    simp only [Block.drafts, List.forall_mem_append, List.forall_mem_cons]
    refine ⟨⟨⟨⟨closes_labelDrafts depth label, closes_declarations depth places⟩, closes_word _ _,
      Stmts.closes_drafts _ _ body⟩, Handlers.closes_drafts? _ _ handlers⟩, closes_of_isEnded ?_, nofun⟩
    split
    · exact isEnded_closing _ _
    · exact Phrase.isEnded_ended _ _

theorem Handlers.closes_drafts? (depth : Nat) (pending : Pending) :
    (hs : Option (List Handler)) → ∀ d ∈ (Handlers.drafts? s depth pending hs).1, s.Closes d
  | none => nofun
  | some hs => by
    simp only [Handlers.drafts?, List.forall_mem_cons]
    exact ⟨closes_word _ _, Handlers.closes_drafts _ _ hs⟩

theorem Handlers.closes_drafts (depth : Nat) (pending : Pending) :
    (hs : List Handler) → ∀ d ∈ (Handlers.drafts s depth pending hs).1, s.Closes d
  | [] => nofun
  | ⟨_, names, action⟩ :: hs => by
    simp only [Handlers.drafts, List.forall_mem_append, List.forall_mem_cons]
    exact ⟨⟨closes_spaced_word _ [.word "WHEN", conditions names] "THEN", Stmts.closes_drafts _ _ action⟩,
      Handlers.closes_drafts _ _ hs⟩

theorem Arms.closes_conditionalDrafts (depth : Nat) (pending : Pending) :
    (as : List Arm) → ∀ d ∈ (Arms.conditionalDrafts s depth pending as).1, s.Closes d
  | [] => nofun
  | ⟨_, condition, body⟩ :: as => by
    simp only [Arms.conditionalDrafts, List.forall_mem_append, List.forall_mem_cons]
    exact ⟨⟨closes_spaced_word _ [.word "ELSIF", s.leaf condition] "THEN", Stmts.closes_drafts _ _ body⟩,
      Arms.closes_conditionalDrafts _ _ as⟩

theorem Arms.closes_choiceDrafts (depth : Nat) (hasOperand : Bool) (pending : Pending) :
    (as : List Arm) → ∀ d ∈ (Arms.choiceDrafts s depth hasOperand pending as).1, s.Closes d
  | [] => nofun
  | ⟨_, condition, body⟩ :: as => by
    simp only [Arms.choiceDrafts, List.forall_mem_append, List.forall_mem_cons]
    exact ⟨⟨closes_spaced_word _ [.word "WHEN", s.armCondition hasOperand condition] "THEN",
      Stmts.closes_drafts _ _ body⟩, Arms.closes_choiceDrafts _ _ _ as⟩

end

end

namespace Function.Place

variable {b : Backend} {f : Function} {kind : Option ReturnKind} (p : f.Place kind b) (format : Format)

/-- What is written there. -/
def written : String := p.extract.of p.source

/-- The body up to the place. -/
def upTo : String :=
  String.join (p.above.map fun d => format.line (d.line format.capitals) ++ format.newline) ++
    String.join (List.replicate p.draft.depth format.indent) ++
    String.join (p.before.map (Part.text format.capitals))

/-- The body after the place. -/
def onwards : String :=
  String.join (p.after.map (Part.text format.capitals)) ++
    String.join (p.below.map fun d => format.newline ++ format.line (d.line format.capitals))

theorem body_eq : f.body format kind b = p.upTo format ++ p.written ++ p.onwards format := by
  rw [Function.body, Function.lines_layout, Format.join, p.drafts_eq, List.map_append, List.map_cons,
    List.map_append, List.map_cons, intercalate_append_cons]
  simp [upTo, onwards, written, Format.line, Draft.line, Phrase.text, p.parts_eq, Part.text, Function.comp_def,
    String.join_cons, String.join_append, String.append_assoc]

/-- A text that ends its line is the operand of a `CASE`. -/
theorem caseHead_of_after (h : p.after = []) :
    ∃ operand, p.draft.phrase = Subject.caseHead ⟨b, f, kind⟩ (some operand) := by
  have hdraft : p.draft ∈ f.drafts kind b := by
    rw [p.drafts_eq]
    simp
  rcases Block.closes_drafts 0 _ true _ f.action p.draft hdraft with hended | hcase
  · refine absurd ?_ (hended p.source p.extract)
    rw [p.parts_eq, h, List.getLast?_concat]
  · exact hcase

/-- What comes after the place in its line starts with a mark. -/
theorem ends_onwards_of_after (h : p.after ≠ []) : Lexer.Ends (p.onwards format).toList := by
  obtain ⟨next, after, hafter⟩ := List.exists_cons_of_ne_nil h
  have hfenced := p.draft.phrase.fenced
  rw [p.parts_eq, hafter, List.isChain_append_cons_cons] at hfenced
  obtain ⟨m, rfl⟩ : ∃ m, next = .mark m := hfenced.2.1
  rw [onwards, hafter, List.map_cons, String.join_cons, String.append_assoc]
  exact m.ends _

theorem ends_onwards
    (h : ∀ operand, p.draft.phrase = Subject.caseHead ⟨b, f, kind⟩ (some operand) →
      Lexer.Ends (p.onwards format).toList) : Lexer.Ends (p.onwards format).toList := by
  by_cases hafter : p.after = []
  · obtain ⟨operand, hcase⟩ := p.caseHead_of_after hafter
    exact h operand hcase
  · exact p.ends_onwards_of_after format hafter

end Function.Place

/-- **When the words after a text are lost.** The body of a routine is what comes up to a place, the text there
and what comes after it. If the text is closed, it swallows what comes after it exactly when it ends in a
comment and the line goes on; if what is written of it cannot be cut, it always does. This is for all backends and
formats, except that after the operand of a `CASE`, which ends its line, the newline has to end tokens. -/
theorem words_after_a_leaf_are_swallowed_iff {b : Backend} {f : Function} {kind : Option ReturnKind}
    (p : f.Place kind b) (format : Format)
    (hcase : ∀ operand, p.draft.phrase = Subject.caseHead ⟨b, f, kind⟩ (some operand) →
      Lexer.Ends (p.onwards format).toList) :
    f.body format kind b = p.upTo format ++ p.written ++ p.onwards format ∧
      (IsClosed p.source →
        (Swallows (p.onwards format).toList p.written.toList ↔
          endsInComment p.written.toList = true ∧
            ∃ a ∈ restOfLine (p.onwards format).toList, Text.isBlank a = false)) ∧
      (tokens? p.written.toList = none → Swallows (p.onwards format).toList p.written.toList) := by
  have hends := p.ends_onwards format hcase
  refine ⟨p.body_eq format, ?_, ?_⟩
  · intro hclosed
    have hcut : tokens? p.written.toList ≠ none :=
      Option.isSome_iff_ne_none.1 (hclosed.isSome_tokens? p.extract)
    rw [swallows_iff hends]
    exact ⟨fun h => h.resolve_left hcut, .inr⟩
  · intro hnone
    exact (swallows_iff hends).2 (.inl hnone)

/-! ### Comments at the end -/

/-- A routine with a `CASE` that has no arms. -/
def choosing (operand : String) : Function :=
  ⟨[], ⟨1, none, [.choice 2 (some (.raw operand .expression)) 0 [] true []], none⟩⟩

/-- The place of the operand. -/
def choosing.place (operand : String) : (choosing operand).Place none where
  above := [⟨0, .word "BEGIN"⟩]
  draft := ⟨1, .spaced [.word "CASE", .of (.leaf operand .trimmed)]⟩
  below := [⟨2, .word "ELSE"⟩, ⟨1, .word "END CASE;"⟩, ⟨0, .word "END"⟩]
  before := [.word "CASE", .mark .blank]
  source := operand
  extract := .trimmed
  after := []
  drafts_eq := rfl
  parts_eq := rfl

/-- A comment after the operand of a `CASE` ends with its line. -/
theorem words_after_a_leaf_are_swallowed_iff_case :
    IsClosed "x -- why" ∧
      (choosing "x -- why").body {} none = "BEGIN\n  CASE x -- why\n    ELSE\n  END CASE;\nEND" ∧
      ¬ Swallows ((choosing.place "x -- why").onwards {}).toList "x -- why".toList := by
  have hclosed : IsClosed "x -- why" := by
    unfold IsClosed
    decide +kernel
  have honwards : ((choosing.place "x -- why").onwards {}).toList = "\n    ELSE\n  END CASE;\nEND".toList := by
    decide
  obtain ⟨hbody, hiff, -⟩ := words_after_a_leaf_are_swallowed_iff (choosing.place "x -- why") {} (by
    rintro - - s hs
    rw [honwards] at hs
    obtain rfl : s = '\n' := (Option.some.inj hs).symm
    decide)
  refine ⟨hclosed, hbody.trans (by decide), ?_⟩
  intro hswallows
  have hwritten : (choosing.place "x -- why").written = "x -- why" := by decide
  rw [hwritten] at hiff
  obtain ⟨-, a, ha, -⟩ := (hiff hclosed).1 hswallows
  rw [honwards] at ha
  cases ha

/-- A routine that returns when a condition holds. -/
def returningWhen (condition : String) : Function :=
  ⟨[], ⟨1, none, [.conditional 2 (.raw condition .expression) [.simple 3 (.ret none none)] [] []], none⟩⟩

/-- The place of the condition. -/
def returningWhen.place (condition : String) : (returningWhen condition).Place none where
  above := [⟨0, .word "BEGIN"⟩]
  draft := ⟨1, .spaced [.word "IF", .of (.leaf condition .trimmed), .word "THEN"]⟩
  below := [⟨2, (Phrase.word "RETURN").ended .semicolon⟩, ⟨1, .word "END IF;"⟩, ⟨0, .word "END"⟩]
  before := [.word "IF", .mark .blank]
  source := condition
  extract := .trimmed
  after := [.mark .blank, .word "THEN"]
  drafts_eq := rfl
  parts_eq := rfl

theorem returningWhen.source_eq {condition : String} (p : (returningWhen condition).Place none) :
    p.source = condition := by
  have hdraft : p.draft ∈ (returningWhen condition).drafts none := by
    rw [p.drafts_eq]
    simp
  have hleaf : Part.leaf p.source p.extract ∈ p.draft.phrase.parts := by
    rw [p.parts_eq]
    simp
  rw [(returningWhen.place condition).drafts_eq] at hdraft
  simp only [place, List.cons_append, List.nil_append, List.mem_cons, List.not_mem_nil, or_false] at hdraft
  rcases hdraft with h | h | h | h | h
  all_goals
    rw [h] at hleaf
    simp [Phrase.word, Phrase.of, Phrase.ended, Phrase.marked, Phrase.spaced, Phrase.separated,
      Phrase.empty] at hleaf
  exact hleaf.1

/-- A comment after a condition takes the `THEN` along. -/
theorem word_after_a_comment_is_swallowed :
    ¬ ∀ (f : Function) (kind : Option ReturnKind) (format : Format), (∀ p : f.Place kind, IsClosed p.source) →
      ∀ p : f.Place kind, ¬ Swallows (p.onwards format).toList p.written.toList := by
  intro hnone
  have hclosed : IsClosed "x -- why" := by
    unfold IsClosed
    decide +kernel
  refine hnone (returningWhen "x -- why") none {} (fun p => ?_) (returningWhen.place "x -- why") ?_
  · rw [returningWhen.source_eq p]
    exact hclosed
  · have honwards : ((returningWhen.place "x -- why").onwards {}).toList =
        " THEN\n    RETURN;\n  END IF;\nEND".toList := by
      decide
    rw [honwards, swallows_iff (by rintro s ⟨⟩; decide)]
    exact .inr ⟨by decide +kernel, 'T', by decide +kernel, by decide⟩

end Routine
