import Routine.Proofs.TokenEnds

/-!
# Cutting a text into lexemes

A list of lexemes spells a text. `Cut rest ls` says that a text which starts with this spelling and goes on
with `rest` is cut into `ls` first; what a text is cut into when it is cut at all is then what spells it
(`lexemes_eq_ok_iff`). A cut does not depend on what comes after a place where tokens end (`Cut.before`).
So blanks around a text can be added and left out, and two texts can be put side by side, without a change of
their tokens (`Cut.strip`, `Cut.spaced`). The exception is a comment at the end of the first text, which goes
on in the second.
-/

namespace Routine
namespace Sql

open Text (Location isBlank)
open Lexer

namespace Lexeme

/-- The lexeme is what a text starts with that goes on with the given one. -/
def Starts (l : Lexeme) (more : List Char) : Prop :=
  ∃ c cs, l.source = c :: cs ∧ step c (cs ++ more) = .ok (l.token, cs.length)

theorem Starts.source_ne {l : Lexeme} {more : List Char} (h : l.Starts more) : l.source ≠ [] := by
  obtain ⟨c, cs, hsource, -⟩ := h
  rw [hsource]
  exact List.cons_ne_nil _ _

/-- Where the text goes on otherwise, the lexeme is the same. -/
theorem Starts.before {l : Lexeme} {mid ds es : List Char} (h : l.Starts (mid ++ ds)) (hes : Follows ds es)
    (hfree : mid = [] → ∀ s ∈ es.head?, takes l.source s = false) : l.Starts (mid ++ es) := by
  obtain ⟨c, cs, hsource, hstep⟩ := h
  refine ⟨c, cs, hsource, ?_⟩
  rw [← List.append_assoc] at hstep ⊢
  refine step_local hstep (by rw [List.length_append]; omega) hes ?_
  intro hend s hs
  rw [List.length_append] at hend
  obtain rfl : mid = [] := List.eq_nil_of_length_eq_zero (by omega)
  rw [List.append_nil, ← hsource]
  exact hfree rfl s hs

end Lexeme

/-- The text that lexemes spell. -/
def spelled (ls : List Lexeme) : List Char :=
  (ls.map Lexeme.source).flatten

@[simp]
theorem spelled_nil : spelled [] = [] := rfl

@[simp]
theorem spelled_cons (l : Lexeme) (ls : List Lexeme) : spelled (l :: ls) = l.source ++ spelled ls := rfl

@[simp]
theorem spelled_append (ls ms : List Lexeme) : spelled (ls ++ ms) = spelled ls ++ spelled ms := by
  simp [spelled]

/-- The tokens other than blanks and comments. -/
def tokens (ls : List Lexeme) : List Token :=
  (ls.map Lexeme.token).filter fun t => !t.isGap

@[simp]
theorem tokens_append (ls ms : List Lexeme) : tokens (ls ++ ms) = tokens ls ++ tokens ms := by
  simp [tokens]

@[simp]
theorem tokens_cons_gap (source : List Char) (ls : List Lexeme) :
    tokens (⟨.gap, source⟩ :: ls) = tokens ls := rfl

/-- A text that starts with the spelling of the lexemes and goes on with `rest` is cut into the lexemes
first. -/
def Cut (rest : List Char) : List Lexeme → Prop
  | [] => True
  | l :: ls => l.Starts (spelled ls ++ rest) ∧ Cut rest ls

namespace Cut

variable {rest : List Char} {ls ms : List Lexeme}

theorem append_iff : Cut rest (ls ++ ms) ↔ Cut (spelled ms ++ rest) ls ∧ Cut rest ms := by
  induction ls with
  | nil => simp [Cut]
  | cons l ls ih =>
    simp only [List.cons_append, Cut, ih, spelled_append, List.append_assoc, and_assoc]

theorem eq_nil_of_spelled (h : Cut rest ls) (hnil : spelled ls = []) : ls = [] := by
  obtain _ | ⟨l, ls⟩ := ls
  · rfl
  · exact absurd (List.append_eq_nil_iff.1 hnil).1 h.1.source_ne

/-- There is one place in a cut for a spelling that ends between lexemes. -/
theorem eq_of_spelled {ls' ms' : List Lexeme} (h : Cut rest (ls ++ ms)) (hsame : ls ++ ms = ls' ++ ms')
    (hspelled : spelled ls = spelled ls') : ls = ls' := by
  rcases List.append_eq_append_iff.1 hsame with ⟨more, rfl, rfl⟩ | ⟨more, rfl, rfl⟩
  · rw [spelled_append, List.self_eq_append_right] at hspelled
    obtain rfl := (append_iff.1 (append_iff.1 h).2).1.eq_nil_of_spelled hspelled
    rw [List.append_nil]
  · rw [spelled_append, List.append_right_eq_self] at hspelled
    obtain rfl := (append_iff.1 (append_iff.1 h).1).2.eq_nil_of_spelled hspelled
    rw [List.append_nil]

/-- The lexemes before a place are the same whatever comes after it, as long as it can follow a token that ends
there and the last lexeme before the place does not take its first character. -/
theorem before {mid ds es : List Char} (h : Cut (mid ++ ds) ls) (hes : Follows ds es)
    (hfree : mid = [] → ∀ l ∈ ls.getLast?, ∀ s ∈ es.head?, takes l.source s = false) :
    Cut (mid ++ es) ls := by
  induction ls with
  | nil => trivial
  | cons l ls ih =>
    obtain ⟨hl, hls⟩ := h
    refine ⟨?_, ih hls ?_⟩
    · rw [← List.append_assoc] at hl ⊢
      refine hl.before hes ?_
      intro hnone
      obtain ⟨hspelled, hmid⟩ := List.append_eq_nil_iff.1 hnone
      obtain rfl := hls.eq_nil_of_spelled hspelled
      exact hfree hmid l rfl
    · intro hmid m hm
      refine hfree hmid m ?_
      rw [List.getLast?_cons]
      simp [Option.mem_def.1 hm]

/-- A text can go on with anything that starts with a character which ends tokens and is not taken. -/
theorem extend {es : List Char} (h : Cut rest ls) (hes : Ends es)
    (hfree : ∀ l ∈ ls.getLast?, ∀ s ∈ es.head?, takes l.source s = false) : Cut es ls := by
  have hnil : Cut ([] ++ rest) ls := h
  exact hnil.before (hes.follows _) fun _ => hfree

/-- A text that is cut into lexemes can end after any of them. -/
theorem left (h : Cut rest (ls ++ ms)) : Cut [] ls :=
  (append_iff.1 h).1.extend Ends.nil fun _ _ _ hs => nomatch hs

theorem starts_of_getLast? (h : Cut rest ls) {l : Lexeme} (hl : l ∈ ls.getLast?) : l.Starts rest := by
  obtain ⟨init, rfl⟩ := List.getLast?_eq_some_iff.1 hl
  exact (append_iff.1 h).2.1

end Cut

theorem cut_of_lexemesFrom {here : Location} {cs : List Char} {ls : List Lexeme}
    (h : lexemesFrom here cs = .ok ls) : Cut [] ls := by
  fun_induction lexemesFrom here cs generalizing ls with
  | case1 => cases h; trivial
  | case2 => cases h
  | case3 => cases h
  | case4 here c rest token k hs source more hm =>
    rename_i ih
    cases h
    refine ⟨⟨c, rest.take k, rfl, ?_⟩, ih hm⟩
    have hspelled : spelled more = rest.drop k := flatten_source hm
    rw [hspelled, List.append_nil, List.take_append_drop, hs, List.length_take, Nat.min_eq_left (step_le hs)]

theorem lexemesFrom_of_cut {ls : List Lexeme} (h : Cut [] ls) (here : Location) :
    lexemesFrom here (spelled ls) = .ok ls := by
  induction ls generalizing here with
  | nil => simp [lexemesFrom]
  | cons l ls ih =>
    obtain ⟨⟨c, cs, hsource, hstep⟩, hls⟩ := h
    rw [List.append_nil] at hstep
    obtain ⟨token, source⟩ := l
    obtain rfl : source = c :: cs := hsource
    rw [spelled_cons, List.cons_append, lexemesFrom, hstep]
    simp [ih hls]

/-- A text is cut into lexemes that spell it, and only into them. -/
theorem lexemes_eq_ok_iff {text : List Char} {ls : List Lexeme} :
    lexemes text = .ok ls ↔ Cut [] ls ∧ spelled ls = text := by
  constructor
  · intro h
    exact ⟨cut_of_lexemesFrom h, flatten_source h⟩
  · rintro ⟨hcut, rfl⟩
    exact lexemesFrom_of_cut hcut _

theorem lexemes_of_toOption {text : List Char} {ls : List Lexeme} (h : (lexemes text).toOption = some ls) :
    lexemes text = .ok ls := by
  cases hlexemes : lexemes text with
  | error fault =>
    rw [hlexemes] at h
    cases h
  | ok ms =>
    rw [hlexemes] at h
    exact congrArg _ (Option.some.inj h)

/-! ## Blanks around a text -/

/-- A blank is a gap of its own, or the first half of a line break. -/
theorem Lexer.step_of_isBlank {b : Char} (hb : isBlank b = true) (cs : List Char) :
    step b cs = .ok (.gap, 0) ∨ b = '\r' ∧ ∃ rest, cs = '\n' :: rest ∧ step b cs = .ok (.gap, 1) := by
  have hstop := mem_stops_of_isBlank hb
  have hne {a : Char} (ha : isBlank a = false) : b ≠ a := ne_of_holds hb ha
  by_cases hbreak : b = '\r' ∧ ∃ rest, cs = '\n' :: rest
  · obtain ⟨rfl, rest, rfl⟩ := hbreak
    exact .inr ⟨rfl, rest, rfl, rfl⟩
  · have hplain : IsPlain b cs :=
      ⟨hne (by decide), hne (by decide), hne (by decide), fun rest hc hrest => hbreak ⟨hc, rest, hrest⟩,
        fun _ hc => absurd hc (hne (by decide)), fun _ hc => absurd hc (hne (by decide))⟩
    have hes : Ends (b :: cs) := by
      rintro s ⟨⟩
      exact hstop
    have hletter : letterStep b cs = none := by
      unfold letterStep
      split
      case h_13 => rfl
      all_goals exact absurd rfl (hne (by decide))
    have hoperator : operatorStep b cs = none := by
      have hnone : (named.find? fun n => n.spelling.isPrefixOf ([] ++ [])) = none := by decide
      have hfind := find?_named_none_local hnone hes.breaks
      rw [List.nil_append] at hfind
      simp [operatorStep, hfind, hne (a := '?') (by decide)]
    have hword : isWordStart b = false := by
      simp [isWordStart, stop_not_alphabetic b hstop, hne (a := '_') (by decide)]
    have hsign : b ∉ ['(', ')', ',', ';', '\\', '[', ']', '{', '}'] := not_mem_of_holds hb (by decide)
    have hnumber : ¬ (b.isDigit = true ∨ b = '.') := by
      simp [stop_not_digit b hstop, hne (a := '.') (by decide)]
    refine .inl (hplain.step_eq.trans ?_)
    rw [plainStep, if_neg hnumber, if_neg hsign, hletter, hoperator]
    simp [hword, hb]

namespace Cut

variable {ls : List Lexeme}

/-- A blank at the end of a text can be left out. -/
theorem shed {cs : List Char} {b : Char} (h : Cut [] ls) (hb : isBlank b = true)
    (hspelled : spelled ls = cs ++ [b]) :
    ∃ ls', Cut [] ls' ∧ spelled ls' = cs ∧ tokens ls' = tokens ls := by
  obtain rfl | ⟨init, l, rfl⟩ := List.eq_nil_or_concat ls
  · simp at hspelled
  rw [List.concat_eq_append] at *
  have hleft : Cut [] init := h.left
  obtain ⟨hinit, ⟨c, tail, hsource, hstep⟩, -⟩ := append_iff.1 h
  obtain ⟨token, source⟩ := l
  obtain rfl : source = c :: tail := hsource
  rw [spelled_nil, List.append_nil, List.append_nil] at hstep
  obtain rfl | ⟨tail, d, rfl⟩ := List.eq_nil_or_concat tail
  · -- The blank is the last lexeme.
    obtain ⟨rfl, rfl⟩ : spelled init = cs ∧ c = b := by simpa using hspelled
    have hgap : token = .gap := by
      rcases step_of_isBlank hb [] with hblank | ⟨-, rest, hrest, -⟩
      · exact (Prod.mk.inj (Except.ok.inj (hstep.symm.trans hblank))).1
      · cases hrest
    exact ⟨init, hleft, rfl, by simp [tokens, hgap, Token.isGap]⟩
  · -- The last lexeme is the same token without the blank.
    rw [List.concat_eq_append] at *
    obtain ⟨rfl, rfl⟩ : spelled init ++ c :: tail = cs ∧ d = b := by
      have hend : (spelled init ++ c :: tail) ++ [d] = cs ++ [b] := by simpa using hspelled
      have := List.append_inj' hend rfl
      exact ⟨this.1, by simpa using this.2⟩
    have hshed : step c tail = .ok (token, tail.length) := by
      rw [List.length_append] at hstep
      exact step_shed hstep hb
    refine ⟨init ++ [⟨token, c :: tail⟩],
      append_iff.2 ⟨?_, ⟨c, tail, rfl, by simpa using hshed⟩, trivial⟩, ?_, ?_⟩
    · have hinit' : Cut ((c :: tail) ++ [d]) init := by simpa using hinit
      simpa using hinit'.before (Ends.nil.follows _) fun _ _ _ _ hs => nomatch hs
    · simp
    · simp [tokens]

/-- Blanks at the end of a text can be left out. -/
theorem dropBlanksEnd (h : Cut [] ls) :
    ∃ ls', Cut [] ls' ∧ spelled ls' = Text.dropBlanksEnd (spelled ls) ∧ tokens ls' = tokens ls := by
  generalize hspelled : spelled ls = cs
  -- The induction is on the number of characters, from the last.
  induction hn : cs.length generalizing cs ls with
  | zero =>
    obtain rfl := List.eq_nil_of_length_eq_zero hn
    exact ⟨ls, h, hspelled, rfl⟩
  | succ n ih =>
    obtain rfl | ⟨init, b, rfl⟩ := List.eq_nil_or_concat cs
    · cases hn
    rw [List.concat_eq_append] at *
    by_cases hb : isBlank b
    · obtain ⟨ms, hms, hinit, htokens⟩ := h.shed hb hspelled
      obtain ⟨ls', hls', htext, hsame⟩ := ih hms _ hinit (by simpa using hn)
      refine ⟨ls', hls', ?_, hsame.trans htokens⟩
      rw [htext]
      simp [Text.dropBlanksEnd, hb]
    · refine ⟨ls, h, ?_, rfl⟩
      rw [hspelled]
      simp [Text.dropBlanksEnd, hb]

/-- Blanks at the start of a text can be left out. -/
theorem dropBlanks {rest : List Char} (h : Cut rest ls) :
    ∃ ls', Cut rest ls' ∧ spelled ls' = Text.dropBlanks (spelled ls) ∧ tokens ls' = tokens ls := by
  induction ls with
  | nil => exact ⟨[], trivial, rfl, rfl⟩
  | cons l ls ih =>
    obtain ⟨⟨c, cs, hsource, hstep⟩, hls⟩ := h
    obtain ⟨token, source⟩ := l
    obtain rfl : source = c :: cs := hsource
    by_cases hc : isBlank c
    · obtain ⟨ls', hls', htext, htokens⟩ := ih hls
      rcases step_of_isBlank hc (cs ++ (spelled ls ++ rest)) with hblank | ⟨rfl, more, hmore, hblank⟩
      · obtain ⟨rfl, hlength⟩ := Prod.mk.inj (Except.ok.inj (hblank.symm.trans hstep))
        obtain rfl := List.eq_nil_of_length_eq_zero hlength.symm
        refine ⟨ls', hls', ?_, htokens⟩
        rw [htext]
        simp [Text.dropBlanks, hc]
      · obtain ⟨rfl, hlength⟩ := Prod.mk.inj (Except.ok.inj (hblank.symm.trans hstep))
        obtain ⟨cs, rfl, -⟩ := exists_cons_of_append hmore (by omega)
        obtain rfl : cs = [] := List.eq_nil_of_length_eq_zero (by simpa using hlength.symm)
        refine ⟨ls', hls', ?_, htokens⟩
        have hn : isBlank '\n' = true := by decide
        have hr : isBlank '\r' = true := by decide
        rw [htext]
        simp [Text.dropBlanks, hn, hr]
    · refine ⟨⟨token, c :: cs⟩ :: ls, ⟨⟨c, cs, rfl, hstep⟩, hls⟩, ?_, rfl⟩
      simp [Text.dropBlanks, hc]

/-- A blank can be put in front of a text. -/
theorem cons_blank {b : Char} (h : Cut [] ls) (hb : isBlank b = true) :
    ∃ ls', Cut [] ls' ∧ spelled ls' = b :: spelled ls ∧ tokens ls' = tokens ls := by
  rcases step_of_isBlank hb (spelled ls) with hblank | ⟨rfl, rest, hrest, hblank⟩
  · exact ⟨⟨.gap, [b]⟩ :: ls, ⟨⟨b, [], rfl, by simpa using hblank⟩, h⟩, rfl, rfl⟩
  · -- A line feed at the start becomes the second half of a line break.
    obtain _ | ⟨l, ls⟩ := ls
    · cases hrest
    obtain ⟨⟨c, cs, hsource, hstep⟩, hls⟩ := h
    obtain ⟨token, source⟩ := l
    obtain rfl : source = c :: cs := hsource
    obtain ⟨rfl, -⟩ := List.cons.inj hrest
    obtain ⟨rfl, hlength⟩ := Prod.mk.inj (Except.ok.inj hstep)
    obtain rfl := List.eq_nil_of_length_eq_zero hlength.symm
    exact ⟨⟨.gap, ['\r', '\n']⟩ :: ls, ⟨⟨'\r', ['\n'], rfl, rfl⟩, hls⟩, rfl, rfl⟩

theorem append_blanks {bs : List Char} (h : Cut [] ls) (hbs : ∀ b ∈ bs, isBlank b = true) :
    ∃ ls', Cut [] ls' ∧ spelled ls' = bs ++ spelled ls ∧ tokens ls' = tokens ls := by
  induction bs with
  | nil => exact ⟨ls, h, rfl, rfl⟩
  | cons b bs ih =>
    obtain ⟨hb, hbs⟩ := List.forall_mem_cons.1 hbs
    obtain ⟨ms, hms, hspelled, htokens⟩ := ih hbs
    obtain ⟨ls', hls', hspelled', htokens'⟩ := hms.cons_blank hb
    exact ⟨ls', hls', by rw [hspelled', hspelled, List.cons_append], htokens'.trans htokens⟩

/-- Blanks around a text can be left out. -/
theorem strip (h : Cut [] ls) :
    ∃ ls', Cut [] ls' ∧ spelled ls' = Text.strip (spelled ls) ∧ tokens ls' = tokens ls := by
  obtain ⟨ms, hms, hstart, hsame⟩ := h.dropBlanks
  obtain ⟨ls', hls', hend, htokens⟩ := hms.dropBlanksEnd
  exact ⟨ls', hls', by rw [hend, hstart, Text.strip], htokens.trans hsame⟩

end Cut

/-! ## Texts side by side -/

/-- A comment up to the end of its line, when the line does not end. -/
def Lexeme.isOpenComment (l : Lexeme) : Bool :=
  match l.source with
  | '-' :: '-' :: rest => !rest.any fun c => c = '\n' || c = '\r'
  | _ => false

/-- What takes a character that ends tokens: a comment that goes on, a question mark, half of a line break or
a number. -/
theorem Lexeme.cases_of_takes {l : Lexeme} {s : Char} (h : takes l.source s = true) :
    l.isOpenComment = true ∨ l.source = ['?'] ∨ l.source = ['\r'] ∧ s = '\n' ∨
      (∃ c ∈ l.source.head?, c.isDigit = true) ∧ s = '.' := by
  unfold takes at h
  split at h
  · next rest heq =>
    refine .inl ?_
    rw [isOpenComment, heq]
    exact h
  · next heq => exact .inr (.inl heq)
  · next heq => exact .inr (.inr (.inl ⟨heq, by simpa using h⟩))
  · next c rest _ _ _ heq =>
    obtain ⟨hc, hs⟩ := Bool.and_eq_true_iff.1 h
    exact .inr (.inr (.inr ⟨⟨c, by rw [heq]; rfl, hc⟩, by simpa using hs⟩))
  · cases h

/-- A question mark by itself is the sign. -/
theorem Lexeme.Starts.token_of_question {l : Lexeme} {more : List Char} (h : l.Starts more)
    (hsource : l.source = ['?']) : l.token = .sign "?" := by
  obtain ⟨c, cs, hcons, hstep⟩ := h
  rw [hsource] at hcons
  obtain ⟨rfl, rfl⟩ := List.cons.inj hcons
  rw [List.nil_append] at hstep
  obtain rfl := eq_nil_of_step_question hstep
  exact (Prod.mk.inj (Except.ok.inj hstep)).1.symm

/-- A comment is no token. -/
theorem Lexeme.Starts.token_of_isOpenComment {l : Lexeme} {more : List Char} (h : l.Starts more)
    (hopen : l.isOpenComment = true) : l.token = .gap := by
  obtain ⟨c, cs, hcons, hstep⟩ := h
  rw [isOpenComment, hcons] at hopen
  split at hopen
  · next rest heq =>
    obtain ⟨rfl, rfl⟩ := List.cons.inj heq
    exact (Prod.mk.inj (Except.ok.inj hstep)).1.symm
  · cases hopen

namespace Cut

variable {ls ms : List Lexeme}

/-- A text can be followed by one that starts with a character which ends tokens and is not taken. -/
theorem join (hls : Cut [] ls) (hms : Cut [] ms) (hes : Ends (spelled ms))
    (hfree : ∀ l ∈ ls.getLast?, ∀ s ∈ (spelled ms).head?, takes l.source s = false) : Cut [] (ls ++ ms) := by
  refine append_iff.2 ⟨?_, hms⟩
  rw [List.append_nil]
  exact hls.extend hes hfree

/-- A blank behind a text ends its last token whatever comes next, unless the text ends in a comment that goes
on. -/
theorem space (hls : Cut [] ls) (hopen : ∀ l ∈ ls.getLast?, l.isOpenComment = false) :
    ∃ js, (∀ rest, Cut rest js) ∧ spelled js = spelled ls ++ [' '] ∧ tokens js = tokens ls := by
  have hes (cs : List Char) : Ends (' ' :: cs) := by
    rintro s ⟨⟩
    decide
  by_cases hfree : ∀ l ∈ ls.getLast?, takes l.source ' ' = false
  · refine ⟨ls ++ [⟨.gap, [' ']⟩], fun rest => append_iff.2 ⟨?_, ?_, trivial⟩, ?_, ?_⟩
    · refine hls.extend (hes _) ?_
      rintro l hl s ⟨⟩
      exact hfree l hl
    · exact ⟨' ', [], rfl, rfl⟩
    · simp
    · simp [tokens, Token.isGap]
  · -- Only a question mark at the end takes the blank, and it is the same token with it.
    obtain rfl | ⟨init, l, rfl⟩ := List.eq_nil_or_concat ls
    · exact absurd (fun _ hl => nomatch hl) hfree
    rw [List.concat_eq_append] at *
    have hlast : (init ++ [l]).getLast? = some l := List.getLast?_concat
    rw [hlast] at hfree hopen
    obtain ⟨token, source⟩ := l
    have hopen : Lexeme.isOpenComment ⟨token, source⟩ = false := hopen _ rfl
    have htakes : takes source ' ' = true := by simpa using hfree
    obtain rfl : source = ['?'] := by
      rcases Lexeme.cases_of_takes (l := ⟨token, source⟩) htakes with h | h | ⟨-, h⟩ | ⟨-, h⟩
      · exact absurd h (by rw [hopen]; decide)
      · exact h
      · exact absurd h (by decide)
      · exact absurd h (by decide)
    obtain ⟨hinit, ⟨c, cs, hsource, hstep⟩, -⟩ := append_iff.1 hls
    obtain ⟨rfl, rfl⟩ := List.cons.inj hsource
    obtain ⟨rfl, -⟩ := Prod.mk.inj (Except.ok.inj hstep)
    refine ⟨init ++ [⟨.sign "?", ['?', ' ']⟩], fun rest => append_iff.2 ⟨?_, ?_, trivial⟩, ?_, ?_⟩
    · have hinit' : Cut (['?'] ++ []) init := by simpa using hinit
      simpa using hinit'.before ((hes rest).follows _) (fun hnil => nomatch hnil)
    · exact ⟨'?', [' '], rfl, step_question (by decide) _⟩
    · simp
    · simp [tokens, Token.isGap]

/-- Texts with a blank between them have the tokens of both, unless a comment of the first one goes on. -/
theorem spaced (hls : Cut [] ls) (hms : Cut [] ms) (hopen : ∀ l ∈ ls.getLast?, l.isOpenComment = false) :
    ∃ js, Cut [] js ∧ spelled js = spelled ls ++ ' ' :: spelled ms ∧ tokens js = tokens ls ++ tokens ms := by
  obtain ⟨ks, hks, hspelled, htokens⟩ := hls.space hopen
  refine ⟨ks ++ ms, append_iff.2 ⟨hks _, hms⟩, ?_, ?_⟩
  · rw [spelled_append, hspelled, List.append_assoc]
    rfl
  · rw [tokens_append, htokens]

end Cut

/-! ## Tokens of a text -/

/-- The tokens of a text, if it can be cut, without blanks and comments. -/
def tokens? (cs : List Char) : Option (List Token) :=
  match lexemes cs with
  | .ok ls => some (tokens ls)
  | .error _ => none

/-- The text ends in a comment that goes on in what follows. -/
def endsInComment (cs : List Char) : Bool :=
  match lexemes cs with
  | .ok ls => ls.getLast?.any Lexeme.isOpenComment
  | .error _ => false

theorem tokens?_eq_some_iff {cs : List Char} {ts : List Token} :
    tokens? cs = some ts ↔ ∃ ls, (Cut [] ls ∧ spelled ls = cs) ∧ tokens ls = ts := by
  simp only [← lexemes_eq_ok_iff, tokens?]
  cases lexemes cs with
  | error fault => simp
  | ok ls => simp

theorem tokens?_spelled {ls : List Lexeme} (h : Cut [] ls) : tokens? (spelled ls) = some (tokens ls) :=
  tokens?_eq_some_iff.2 ⟨ls, ⟨h, rfl⟩, rfl⟩

theorem tokens?_nil : tokens? [] = some [] := by
  have hnil : Cut [] [] := trivial
  exact tokens?_spelled hnil

theorem endsInComment_spelled {ls : List Lexeme} (h : Cut [] ls) :
    endsInComment (spelled ls) = ls.getLast?.any Lexeme.isOpenComment := by
  rw [endsInComment, lexemes_eq_ok_iff.2 ⟨h, rfl⟩]

variable {cs ds : List Char} {ts us : List Token}

theorem tokens?_strip (h : tokens? cs = some ts) : tokens? (Text.strip cs) = some ts := by
  obtain ⟨ls, ⟨hls, rfl⟩, rfl⟩ := tokens?_eq_some_iff.1 h
  obtain ⟨ms, hms, hspelled, htokens⟩ := hls.strip
  rw [← hspelled, tokens?_spelled hms, htokens]

theorem tokens?_spaced (hcs : tokens? cs = some ts) (hds : tokens? ds = some us)
    (hopen : endsInComment cs = false) : tokens? (cs ++ ' ' :: ds) = some (ts ++ us) := by
  obtain ⟨ls, ⟨hls, rfl⟩, rfl⟩ := tokens?_eq_some_iff.1 hcs
  obtain ⟨ms, ⟨hms, rfl⟩, rfl⟩ := tokens?_eq_some_iff.1 hds
  rw [endsInComment_spelled hls] at hopen
  have hlast : ∀ l ∈ ls.getLast?, l.isOpenComment = false := by
    intro l hl
    rwa [Option.mem_def.1 hl] at hopen
  obtain ⟨js, hjs, hspelled, htokens⟩ := hls.spaced hms hlast
  rw [← hspelled, tokens?_spelled hjs, htokens]

end Sql
end Routine
