import Routine.Proofs.Cuts

/-!
# What a text swallows of the text after it

A text is followed by another. It *swallows* words of the other when a comment or a quotation that starts in it
does not end before them (`Swallows`). Where the second text starts with a character that ends tokens, that
happens in two ways only: the first text cannot be cut, or it ends in a comment up to the end of the line and
the line goes on (`swallows_iff`). Numbers and question marks take such a character along as well, but they are
no quotations.
-/

namespace Routine
namespace Sql

open Text (isBlank)
open Lexer

/-- A text that goes on with `rest` is read from the left. A token that starts in the text cannot be read, or it
is a comment or a quotation and has something of `rest` in it that is not blank. -/
inductive Swallows (rest : List Char) : List Char → Prop where
  | unclosed {c : Char} {cs : List Char} {fault : StepFault} (h : step c (cs ++ rest) = .error fault) :
    Swallows rest (c :: cs)
  | covers {c : Char} {cs : List Char} {token : Token} {k : Nat} (h : step c (cs ++ rest) = .ok (token, k))
    (hquoted : isOpaque c token = true) (hsome : ∃ a ∈ rest.take (k - cs.length), isBlank a = false) :
    Swallows rest (c :: cs)
  | later {c : Char} {cs : List Char} {token : Token} {k : Nat} (h : step c (cs ++ rest) = .ok (token, k))
    (hlater : Swallows rest (cs.drop k)) : Swallows rest (c :: cs)

namespace Swallows

variable {rest cs : List Char} {c : Char} {token : Token} {k : Nat}

theorem not_nil : ¬ Swallows rest [] := nofun

theorem cons_iff (h : step c (cs ++ rest) = .ok (token, k)) :
    Swallows rest (c :: cs) ↔
      isOpaque c token = true ∧ (∃ a ∈ rest.take (k - cs.length), isBlank a = false) ∨
        Swallows rest (cs.drop k) := by
  constructor
  · intro hswallows
    cases hswallows with
    | unclosed hfault => rw [h] at hfault; cases hfault
    | covers h' hquoted hsome =>
      rw [h] at h'
      cases h'
      exact .inl ⟨hquoted, hsome⟩
    | later h' hlater =>
      rw [h] at h'
      cases h'
      exact .inr hlater
  · rintro (⟨hquoted, hsome⟩ | hlater)
    · exact .covers h hquoted hsome
    · exact .later h hlater

/-- A token that ends within the text swallows nothing by itself. -/
theorem cons_iff_of_le (h : step c (cs ++ rest) = .ok (token, k)) (hk : k ≤ cs.length) :
    Swallows rest (c :: cs) ↔ Swallows rest (cs.drop k) := by
  rw [cons_iff h, Nat.sub_eq_zero_of_le hk]
  simp

/-- A token that is no comment and no quotation swallows nothing, and nothing starts after it in the text. -/
theorem not_cons (h : step c (cs ++ rest) = .ok (token, k)) (hquoted : isOpaque c token = false)
    (hk : cs.length ≤ k) : ¬ Swallows rest (c :: cs) := by
  rw [cons_iff h, hquoted, List.drop_eq_nil_of_le hk]
  simpa using not_nil

end Swallows

/-! ## The end of a line -/

/-- What comes before the end of the line. -/
def restOfLine (cs : List Char) : List Char :=
  cs.takeWhile fun c => !(c = '\n' || c = '\r')

theorem exists_mem_take_lineComment {cs : List Char} :
    (∃ a ∈ cs.take (lineComment cs), isBlank a = false) ↔ ∃ a ∈ restOfLine cs, isBlank a = false := by
  induction cs with
  | nil => simp [restOfLine]
  | cons c cs ih =>
    by_cases hc : c = '\n' ∨ c = '\r'
    · have hblank : isBlank c = true := by
        rcases hc with rfl | rfl <;> decide
      rw [restOfLine, List.takeWhile_cons_of_neg (by rcases hc with rfl | rfl <;> decide)]
      simp [lineComment_cons, hc, hblank]
    · rw [restOfLine, List.takeWhile_cons_of_pos (by simpa using hc), lineComment_cons, if_neg hc,
        List.take_succ_cons]
      simp only [List.mem_cons, or_and_right, exists_or, exists_eq_left]
      exact or_congr_right ih

theorem isOpenComment_iff {l : Lexeme} :
    l.isOpenComment = true ↔ ∃ cs, l.source = '-' :: '-' :: cs ∧ ∀ c ∈ cs, ¬ (c = '\n' ∨ c = '\r') := by
  unfold Lexeme.isOpenComment
  split
  · next cs heq => simp [heq]
  · next hne =>
    constructor
    · intro h
      cases h
    · rintro ⟨cs, heq, -⟩
      exact absurd heq (hne cs)

/-! ## Numbers -/

theorem not_isOpaque_numberFrom {c : Char} (hc : c.isDigit = true) (cs : List Char) :
    isOpaque c (numberFrom cs).1 = false := by
  obtain ⟨text, htok⟩ | htok | ⟨text, long, htok⟩ := numberFrom_token cs
  · simp [htok, isOpaque, hc]
  · rw [htok]
    rfl
  · rw [htok]
    rfl

theorem step_digit {c : Char} (hc : c.isDigit = true) (cs : List Char) :
    step c cs = .ok ((numberFrom (c :: cs)).1, (numberFrom (c :: cs)).2 - 1) := by
  have hplain : IsPlain c cs := .of_not_mem (not_mem_of_holds hc (by decide)) cs
  have hblank : ¬ (c = ' ' ∨ c = '\t' ∨ c = '\n' ∨ c = '\r') := by
    rintro (rfl | rfl | rfl | rfl) <;> exact absurd hc (by decide)
  rw [hplain.step_eq, plainStep, if_neg hblank, if_pos (.inl hc)]

/-- Digits that take a point along are the same token without it. -/
theorem step_digits {c : Char} {cs es : List Char} {token : Token} {k : Nat} (hc : c.isDigit = true)
    (hes : Ends es) (h : step c (cs ++ es) = .ok (token, k)) (hk : cs.length < k) :
    ∃ token, step c cs = .ok (token, cs.length) := by
  have hread : numberFrom (c :: cs ++ []) = ((numberFrom (c :: cs)).1, (numberFrom (c :: cs)).2) := by
    rw [List.append_nil]
  have hle : (numberFrom (c :: cs)).2 ≤ (c :: cs).length := numberFrom_le rfl (List.cons_ne_nil _ _)
  have hdigits : ((c :: cs).takeWhile Char.isDigit).length ≤ (numberFrom (c :: cs)).2 :=
    takeWhile_isDigit_le rfl
  rw [List.length_cons] at hle
  by_cases hall : ((c :: cs).takeWhile Char.isDigit).length < (c :: cs).length
  · -- A number that goes on after its digits takes no point.
    have hlocal := numberFrom_local hread (List.cons_ne_nil _ _) hle (hes.follows _) (.inl hall)
    rw [step_digit hc, ← List.cons_append, hlocal] at h
    obtain ⟨-, rfl⟩ := Prod.mk.inj (Except.ok.inj h)
    omega
  · rw [List.length_cons] at hall
    refine ⟨(numberFrom (c :: cs)).1, ?_⟩
    rw [step_digit hc, show (numberFrom (c :: cs)).2 - 1 = cs.length by omega]

/-! ## One lexeme -/

variable {rest : List Char}

theorem Lexeme.Starts.swallows_iff {l : Lexeme} (h : l.Starts []) (hrest : Ends rest) :
    Swallows rest l.source ↔ l.isOpenComment = true ∧ ∃ a ∈ restOfLine rest, isBlank a = false := by
  obtain ⟨c, cs, hsource, hstep⟩ := h
  by_cases hfree : ∀ s ∈ rest.head?, takes l.source s = false
  · have hlocal := step_local hstep (Nat.le_refl _) (hrest.follows _) (fun _ => hsource ▸ hfree)
    rw [hsource, Swallows.cons_iff_of_le hlocal (Nat.le_refl _), List.drop_length]
    refine iff_of_false Swallows.not_nil ?_
    rintro ⟨hopen, a, ha, -⟩
    obtain _ | ⟨s, rest⟩ := rest
    · cases ha
    · obtain ⟨cs, hcomment, hline⟩ := isOpenComment_iff.1 hopen
      have htakes := hfree s rfl
      rw [hcomment, takes_lineComment hline] at htakes
      cases htakes
  · rw [List.append_nil] at hstep
    obtain ⟨s, hs, htakes⟩ : ∃ s, s ∈ rest.head? ∧ takes l.source s = true := by simpa using hfree
    have hclosed (hopen : l.isOpenComment = false) (hnot : ¬ Swallows rest l.source) :
        Swallows rest l.source ↔ l.isOpenComment = true ∧ ∃ a ∈ restOfLine rest, isBlank a = false :=
      iff_of_false hnot fun h => absurd h.1 (by rw [hopen]; decide)
    obtain ⟨rest, rfl⟩ : ∃ tail, rest = s :: tail := List.head?_eq_some_iff.1 hs
    rcases Lexeme.cases_of_takes htakes with hopen | hquestion | ⟨hreturn, rfl⟩ | ⟨⟨d, hd, hdigit⟩, rfl⟩
    · obtain ⟨line, hline, hend⟩ := isOpenComment_iff.1 hopen
      have hlength := lineComment_eq_length hend (s :: rest)
      have hcomment : step '-' ('-' :: line ++ s :: rest) =
          .ok (.gap, lineComment (line ++ s :: rest) + 1) := rfl
      have hdrop : ('-' :: line).drop (line.length + lineComment (s :: rest) + 1) = [] :=
        List.drop_eq_nil_of_le (by rw [List.length_cons]; omega)
      have htake : line.length + lineComment (s :: rest) + 1 - ('-' :: line).length =
          lineComment (s :: rest) := by
        rw [List.length_cons]
        omega
      rw [hopen, hline, Swallows.cons_iff hcomment, hlength, hdrop, htake, exists_mem_take_lineComment]
      simp [isOpaque, Swallows.not_nil]
    · refine hclosed ?_ ?_
      · rw [Lexeme.isOpenComment, hquestion]
        rfl
      · rw [hquestion]
        exact Swallows.not_cons (step_question (hrest s hs) rest) rfl (Nat.zero_le _)
    · refine hclosed ?_ ?_
      · rw [Lexeme.isOpenComment, hreturn]
        rfl
      · rw [hreturn]
        have hbreak : step '\r' ([] ++ '\n' :: rest) = .ok (.gap, 1) := rfl
        exact Swallows.not_cons hbreak rfl (Nat.zero_le _)
    · obtain rfl : c = d := by
        rw [hsource] at hd
        exact Option.some.inj hd
      refine hclosed ?_ ?_
      · refine Bool.eq_false_iff.2 fun hopen => ?_
        obtain ⟨line, hline, -⟩ := isOpenComment_iff.1 hopen
        rw [hsource] at hline
        rw [(List.cons.inj hline).1] at hdigit
        cases hdigit
      · rw [hsource]
        refine Swallows.not_cons (step_digit hdigit _) (not_isOpaque_numberFrom hdigit _) ?_
        -- A number that ended before would end there without the point too.
        refine Nat.le_of_not_lt fun hlt => ?_
        have hback := step_stop (step_digit hdigit (cs ++ '.' :: rest)) (Nat.le_of_lt hlt)
        rw [hstep] at hback
        have := (Prod.mk.inj (Except.ok.inj hback)).2
        omega

/-! ## A text -/

/-- A text that can be cut swallows what comes after it when it ends in a comment and the line goes on. -/
theorem Cut.swallows_iff {ls : List Lexeme} (h : Cut [] ls) (hrest : Ends rest) :
    Swallows rest (spelled ls) ↔
      ls.getLast?.any Lexeme.isOpenComment = true ∧ ∃ a ∈ restOfLine rest, isBlank a = false := by
  induction ls with
  | nil => simpa using Swallows.not_nil
  | cons l ls ih =>
    obtain ⟨hl, hls⟩ := h
    obtain _ | ⟨m, ls⟩ := ls
    · simpa using hl.swallows_iff hrest
    · obtain ⟨c, cs, hsource, hstep⟩ := hl
      have hmore : spelled (m :: ls) ≠ [] := by
        intro hnil
        exact absurd (hls.eq_nil_of_spelled hnil) (List.cons_ne_nil _ _)
      have hlocal : step c (cs ++ spelled (m :: ls) ++ rest) = .ok (l.token, cs.length) := by
        rw [← List.append_assoc] at hstep
        refine step_local hstep (by simp) (hrest.follows _) ?_
        intro hlength
        rw [List.length_append] at hlength
        exact absurd (List.eq_nil_of_length_eq_zero (by omega)) hmore
      rw [spelled_cons, hsource, List.cons_append, Swallows.cons_iff_of_le hlocal (by simp), List.drop_left,
        ih hls, List.getLast?_cons_cons]

/-- A text that swallows nothing can be cut. -/
theorem exists_cut_of_not_swallows (hrest : Ends rest) (cs : List Char) (h : ¬ Swallows rest cs) :
    ∃ ls, Cut [] ls ∧ spelled ls = cs := by
  induction hn : cs.length using Nat.strongRecOn generalizing cs with
  | _ n ih =>
  obtain _ | ⟨c, cs⟩ := cs
  · exact ⟨[], trivial, rfl⟩
  cases hstep : step c (cs ++ rest) with
  | error fault => exact absurd (.unclosed hstep) h
  | ok answer =>
    obtain ⟨token, k⟩ := answer
    by_cases hk : k ≤ cs.length
    · have hlocal := step_stop hstep hk
      rw [Swallows.cons_iff_of_le hstep hk] at h
      obtain ⟨ls, hls, hspelled⟩ := ih (cs.drop k).length (by simp at hn ⊢; omega) _ h rfl
      refine ⟨⟨token, c :: cs.take k⟩ :: ls, ⟨⟨c, cs.take k, rfl, ?_⟩, hls⟩, ?_⟩
      · rw [hspelled, List.append_nil, List.take_append_drop, List.length_take, Nat.min_eq_left hk]
        exact hlocal
      · rw [spelled_cons, hspelled, List.cons_append, List.take_append_drop]
    · suffices hwhole : ∃ token, step c cs = .ok (token, cs.length) by
        obtain ⟨token, hwhole⟩ := hwhole
        exact ⟨[⟨token, c :: cs⟩], ⟨⟨c, cs, rfl, by simpa using hwhole⟩, trivial⟩, by simp⟩
      by_cases hfree : ∀ s ∈ rest.head?, takes (c :: cs) s = false
      · rcases step_reach hstep hrest hfree with hle | ⟨hquoted, q, hq, hlast⟩
        · exact absurd hle hk
        · refine absurd (.covers hstep hquoted ⟨q, ?_, ?_⟩) h
          · rw [List.getElem?_append_right (by omega)] at hlast
            refine List.mem_of_getElem? (i := k - 1 - cs.length) ?_
            rw [List.getElem?_take_of_lt (by omega), hlast]
          · exact Bool.eq_false_iff.2 fun hblank => hq (mem_stops_of_isBlank hblank)
      · obtain ⟨s, hs, htakes⟩ : ∃ s, s ∈ rest.head? ∧ takes (c :: cs) s = true := by simpa using hfree
        rcases Lexeme.cases_of_takes (l := ⟨.gap, c :: cs⟩) htakes with
          hopen | hquestion | ⟨hreturn, rfl⟩ | ⟨⟨d, hd, hdigit⟩, rfl⟩
        · obtain ⟨line, hline, hend⟩ := isOpenComment_iff.1 hopen
          obtain ⟨rfl, rfl⟩ := List.cons.inj hline
          have hlength := lineComment_eq_length hend []
          rw [List.append_nil] at hlength
          exact ⟨.gap, by rw [step_lineComment, hlength]; rfl⟩
        · obtain ⟨rfl, rfl⟩ := List.cons.inj hquestion
          exact ⟨_, rfl⟩
        · obtain ⟨rfl, rfl⟩ := List.cons.inj hreturn
          exact ⟨_, rfl⟩
        · obtain rfl := Option.some.inj hd
          exact step_digits hdigit hrest hstep (by omega)

/-- **What a text swallows.** Before a character that ends tokens, a text swallows something exactly when it
cannot be cut, or when it ends in a comment and the line does not end there. -/
theorem swallows_iff {cs : List Char} (hrest : Ends rest) :
    Swallows rest cs ↔
      tokens? cs = none ∨ endsInComment cs = true ∧ ∃ a ∈ restOfLine rest, isBlank a = false := by
  constructor
  · intro h
    cases htokens : tokens? cs with
    | none => exact .inl rfl
    | some ts =>
      obtain ⟨ls, ⟨hls, rfl⟩, -⟩ := tokens?_eq_some_iff.1 htokens
      rw [endsInComment_spelled hls]
      exact .inr ((hls.swallows_iff hrest).1 h)
  · intro h
    refine Classical.byContradiction fun hnot => ?_
    obtain ⟨ls, hls, rfl⟩ := exists_cut_of_not_swallows hrest cs hnot
    rw [tokens?_spelled hls, endsInComment_spelled hls, ← hls.swallows_iff hrest] at h
    rcases h with hnone | hswallows
    · cases hnone
    · exact hnot hswallows

end Sql
end Routine
