import Routine.Proofs.Cuts
import Routine.Sql.Words

/-!
# Gaps and keywords, and what follows them

A gap that does not end a text is the same whatever follows it (`Starts.of_gap`): a comment up to the end of its
line has ended with the line, and only a line break can become longer. A letter that introduces no string starts a
word (`step_word`), which ends before a character that is none of a word, whatever follows that (`Starts.of_as`).
The lexeme before the keyword `AS` ends at the letter A, which none but a word can take (`Starts.not_takes`).
-/

namespace Routine

/-! ## Letters of keywords -/

namespace Text

/-- What holds of every number below a bound holds of the characters below it. -/
theorem of_toNat_lt {p : Char → Prop} {bound : Nat} (h : ∀ n : Fin bound, p (Char.ofNat n)) {c : Char}
    (hc : c.toNat < bound) : p c := by
  have hp := h ⟨c.toNat, hc⟩
  rwa [Char.ofNat_toNat] at hp

theorem eq_letter_of_upper {c : Char} (hascii : c.toNat < 0x80) (h : upper c = 'A') : c = 'A' ∨ c = 'a' :=
  of_toNat_lt (p := fun c => upper c = 'A' → c = 'A' ∨ c = 'a') (by decide) hascii h

/-- A keyword that starts with an A is spelled with this letter. -/
theorem eq_letter_of_keywordLetters {c : Char} {tail : List Char} (h : keywordLetters c = 'A' :: tail) :
    c = 'A' ∨ c = 'a' := by
  unfold keywordLetters at h
  split at h
  · next hascii => exact eq_letter_of_upper hascii (List.cons.inj h).1
  · next hascii =>
    split at h
    case h_11 => exact .inl (List.cons.inj h).1
    all_goals exact absurd (List.cons.inj h).1 (by decide)

theorem keywordLetters_ne_nil (c : Char) : keywordLetters c ≠ [] := by
  unfold keywordLetters
  split
  · exact List.cons_ne_nil _ _
  · split <;> exact List.cons_ne_nil _ _

theorem eq_letter_of_keywordForm {c : Char} {cs : List Char}
    (h : keywordForm (String.ofList (c :: cs)) = "AS") : c = 'A' ∨ c = 'a' := by
  have hletters : keywordLetters c ++ cs.flatMap keywordLetters = ['A', 'S'] := by
    have := congrArg String.toList h
    simpa [keywordForm] using this
  obtain ⟨d, tail, hd⟩ := List.exists_cons_of_ne_nil (keywordLetters_ne_nil c)
  rw [hd, List.cons_append] at hletters
  rw [(List.cons.inj hletters).1] at hd
  exact eq_letter_of_keywordLetters hd

end Text

namespace Sql

open Text (isBlank)

/-! ## Gaps and words -/

theorem Token.eq_gap_of_isGap {t : Token} (h : t.isGap = true) : t = .gap := by
  unfold isGap at h
  split at h
  · rfl
  · cases h

theorem Token.eq_word_of_isKeyword {t : Token} {keyword : String} (h : t.isKeyword keyword = true) :
    ∃ value, t = .word value false ∧ Text.keywordForm value = keyword := by
  unfold isKeyword at h
  split at h
  · next value => exact ⟨value, rfl, by simpa using h⟩
  · cases h

/-- A blank, a comment or a word outside quotes. -/
def Token.isBare : Token → Bool
  | gap => true
  | word _ inQuotes => !inQuotes
  | _ => false

/-- A blank, a comment or a word, in quotes or not. -/
def Token.isGapOrWord : Token → Bool
  | gap => true
  | word _ _ => true
  | _ => false

theorem Token.isGapOrWord_of_isBare {t : Token} (h : t.isBare = true) : t.isGapOrWord = true := by
  cases t <;> first | rfl | cases h

namespace Lexer

variable {c : Char} {cs : List Char} {tok : Token} {k : Nat}

theorem isWordChar_of_isWordPart (h : isWordPart c = true) : isWordChar c = true := by
  simp only [isWordPart, Text.isAlphabetic, Bool.or_eq_true, decide_eq_true_eq] at h
  simp only [isWordChar, Char.isAlphanum, Bool.or_eq_true, decide_eq_true_eq]
  grind

theorem numberFrom_not_gapOrWord (cs : List Char) : (numberFrom cs).1.isGapOrWord = false := by
  obtain ⟨text, htok⟩ | htok | ⟨text, long, htok⟩ := numberFrom_token cs
  all_goals rw [htok]; rfl

theorem operatorStep_not_gapOrWord (h : operatorStep c cs = some (tok, k)) : tok.isGapOrWord = false := by
  unfold operatorStep Named.read operator at h
  dsimp only at h
  split at h
  · split at h
    · split at h
      · cases h
        rfl
      · cases h
        rfl
    · cases h
      rfl
  · split at h
    · cases h
      rfl
    · cases h

/-- What starts a gap or a word: a blank, the marks of a comment, or the first letter. -/
theorem step_bare (h : step c cs = .ok (tok, k)) (hbare : tok.isBare = true) :
    tok = .gap ∧
        (isBlank c = true ∨ (∃ rest, c = '-' ∧ cs = '-' :: rest) ∨ ∃ rest, c = '/' ∧ cs = '*' :: rest) ∨
      letterStep c cs = none ∧ isWordStart c = true ∧ wordFrom [c] cs = (tok, k) := by
  have hnot {p : Prop} (hother : tok.isGapOrWord = false) : p :=
    absurd (Token.isGapOrWord_of_isBare hbare) (by rw [hother]; decide)
  cases reads_of_step h with
  | blank hblank htok hk => exact .inl ⟨htok, .inl hblank⟩
  | lineBreak hc hcs htok hk => exact .inl ⟨htok, .inl (by rw [hc]; decide)⟩
  | lineComment hc hcs htok hk => exact .inl ⟨htok, .inr (.inl ⟨_, hc, hcs⟩)⟩
  | blockComment hc hcs hcomment htok hk => exact .inl ⟨htok, .inr (.inr ⟨_, hc, hcs⟩)⟩
  | word hletter hstart hread => exact .inr ⟨hletter, hstart, hread⟩
  | quotedWord hc hbody htok =>
    rw [htok] at hbare
    cases hbare
  | quotation hc hstring =>
    obtain ⟨text, n, -, rfl, -⟩ := exists_of_stringStep hstring
    exact hnot rfl
  | dollar hc hdollar =>
    obtain ⟨tag, text, rfl⟩ | ⟨name, rfl⟩ := exists_of_dollarStep hdollar
    · exact hnot rfl
    · exact hnot rfl
  | number hnumber htok hk => exact hnot (htok ▸ numberFrom_not_gapOrWord _)
  | letter hnumber hletter =>
    obtain ⟨⟨kind, text, rfl⟩, -⟩ := letterStep_closes hletter
    exact hnot rfl
  | operator hplain hoperator => exact hnot (operatorStep_not_gapOrWord hoperator)
  | punctuation hsign htok hk => exact hnot (htok ▸ rfl)
  | other hplain hsign hoperator hstart htok hk => exact hnot (htok ▸ rfl)

theorem not_isDigit_of_isWordStart (h : isWordStart c = true) : c.isDigit = false := by
  refine Bool.eq_false_iff.2 ?_
  intro hdigit
  have hascii : c.toNat < 0x80 := by
    simp only [Char.isDigit, Bool.and_eq_true, decide_eq_true_eq] at hdigit
    exact Nat.lt_of_le_of_lt (UInt32.le_iff_toNat_le.1 hdigit.2) (by decide)
  exact Text.of_toNat_lt (p := fun c => c.isDigit = true → ¬ isWordStart c = true) (by decide +kernel) hascii hdigit h

/-- No operator starts with a letter. -/
theorem operatorStep_of_isWordStart (h : isWordStart c = true) (cs : List Char) : operatorStep c cs = none := by
  have hnamed : ∀ n ∈ named, ∃ a tail, n.spelling = a :: tail ∧ isWordStart a = false := by
    have hall : (named.all fun n => n.spelling.head?.any fun a => !isWordStart a) = true := by decide
    intro n hn
    obtain ⟨a, hhead, ha⟩ := (Option.any_eq_true _ _).1 (List.all_eq_true.1 hall n hn)
    obtain ⟨tail, htail⟩ := List.head?_eq_some_iff.1 hhead
    exact ⟨a, tail, htail, by simpa using ha⟩
  have hfind : (named.find? fun n => n.spelling.isPrefixOf (c :: cs)) = none := by
    refine List.find?_eq_none.2 ?_
    intro n hn hpre
    obtain ⟨a, tail, hspelling, ha⟩ := hnamed n hn
    rw [hspelling, List.isPrefixOf_iff_prefix, List.cons_prefix_cons] at hpre
    exact ne_of_holds h ha hpre.1.symm
  simp [operatorStep, hfind, ne_of_holds h (show isWordStart '?' = false by decide)]

/-- A letter starts a word, unless it introduces a string. -/
theorem step_word (hstart : isWordStart c = true) (hletter : letterStep c cs = none) :
    step c cs = .ok (wordFrom [c] cs) := by
  have hplain : IsPlain c cs := .of_not_mem (not_mem_of_holds hstart (by decide)) cs
  have hblank : ¬ (c = ' ' ∨ c = '\t' ∨ c = '\n' ∨ c = '\r') := by
    rintro (rfl | rfl | rfl | rfl) <;> exact absurd hstart (by decide)
  have hnumber : ¬ (c.isDigit = true ∨ c = '.') := by
    rw [not_isDigit_of_isWordStart hstart]
    exact not_or.2 ⟨Bool.noConfusion, ne_of_holds hstart (by decide)⟩
  have hsign : c ∉ ['(', ')', ',', ';', '\\', '[', ']', '{', '}'] := not_mem_of_holds hstart (by decide)
  rw [hplain.step_eq, plainStep, if_neg hblank, if_neg hnumber, if_neg hsign, hletter,
    operatorStep_of_isWordStart hstart]
  simp [hstart]

/-- The letter A starts a word, whatever comes after it. -/
theorem step_letter {a : Char} (ha : a = 'A' ∨ a = 'a') (cs : List Char) :
    step a cs = .ok (wordFrom [a] cs) := by
  rcases ha with rfl | rfl
  · exact step_word (by decide) rfl
  · exact step_word (by decide) rfl

end Lexer

namespace Lexeme

open Lexer

variable {l : Lexeme} {more more' : List Char}

/-- A gap that does not end the text is the same whatever comes after it, unless a line break becomes longer. -/
theorem Starts.of_gap (h : l.Starts more) (hgap : l.token.isGap = true) (hmore : more ≠ [])
    (hbreak : more'.head? ≠ some '\n' ∨ more'.head? = more.head?) : l.Starts more' := by
  obtain ⟨c, cs, hsource, hstep⟩ := h
  obtain ⟨token, source⟩ := l
  obtain rfl : source = c :: cs := hsource
  obtain rfl : token = .gap := Token.eq_gap_of_isGap hgap
  refine ⟨c, cs, rfl, ?_⟩
  rcases step_bare hstep rfl with ⟨-, hblank | ⟨rest, rfl, hrest⟩ | ⟨rest, rfl, hrest⟩⟩ | ⟨-, -, hword⟩
  · rcases step_of_isBlank hblank (cs ++ more) with hone | ⟨rfl, rest, hrest, htwo⟩
    · have hlength := (Prod.mk.inj (Except.ok.inj (hone.symm.trans hstep))).2
      obtain rfl : cs = [] := List.eq_nil_of_length_eq_zero hlength.symm
      rcases step_of_isBlank hblank more' with hone' | ⟨rfl, rest, rfl, -⟩
      · exact hone'
      · -- The line feed after the text was there before.
        have hhead : more.head? = some '\n' := (hbreak.resolve_left (fun hne => hne rfl)).symm
        obtain ⟨tail, rfl⟩ := List.head?_eq_some_iff.1 hhead
        cases hone
    · have hlength := (Prod.mk.inj (Except.ok.inj (htwo.symm.trans hstep))).2
      obtain ⟨cs, rfl, -⟩ := exists_cons_of_append hrest (by omega)
      obtain rfl : cs = [] := List.eq_nil_of_length_eq_zero (by simpa using hlength.symm)
      rfl
  · -- What follows shows that the comment ends within the text.
    rw [hrest] at hstep
    have hlength : lineComment rest + 1 = cs.length := (Prod.mk.inj (Except.ok.inj hstep)).2
    obtain ⟨cs, rfl, rfl⟩ := exists_cons_of_append hrest (by omega)
    rw [List.length_cons] at hlength
    have hclosed : ∃ c ∈ cs, c = '\n' ∨ c = '\r' := by
      refine Classical.byContradiction ?_
      intro hopen
      have hlong := lineComment_eq_length (fun c hc hend => hopen ⟨c, hc, hend⟩) more
      exact hmore (eq_nil_of_lineComment (by omega))
    rw [List.cons_append, step_lineComment, lineComment_local hclosed more more', hlength, List.length_cons]
  · rw [hrest] at hstep
    cases hcomment : blockComment 1 rest with
    | none =>
      simp only [step_blockComment, hcomment] at hstep
      cases hstep
    | some n =>
      simp only [step_blockComment, hcomment] at hstep
      have hlength := (Prod.mk.inj (Except.ok.inj hstep)).2
      obtain ⟨cs, rfl, rfl⟩ := exists_cons_of_append hrest (by omega)
      rw [List.length_cons] at hlength ⊢
      simp only [List.cons_append, step_blockComment, blockComment_local hcomment (show n ≤ cs.length by omega)]
      rw [hlength]
  · cases hword

/-- A bare word is the letters from its first one to the next character that is none of a word. -/
theorem Starts.letters_of_word {value : String} (h : l.Starts more) (htoken : l.token = .word value false) :
    ∃ c cs, l.source = c :: cs ∧ value = String.ofList (c :: cs) ∧ isWordStart c = true ∧
      letterStep c (cs ++ more) = none ∧ (cs ++ more).takeWhile isWordPart = cs := by
  obtain ⟨c, cs, hsource, hstep⟩ := h
  rw [htoken] at hstep
  rcases step_bare hstep rfl with ⟨hgap, -⟩ | ⟨hletter, hstart, hword⟩
  · cases hgap
  · obtain ⟨hvalue, hlength⟩ := Prod.mk.inj hword
    have hrun : (cs ++ more).takeWhile isWordPart <+: cs :=
      List.prefix_of_prefix_length_le (List.takeWhile_prefix _) (List.prefix_append _ _) (Nat.le_of_eq hlength)
    have hcs := hrun.eq_of_length hlength
    refine ⟨c, cs, hsource, ?_, hstart, hletter, hcs⟩
    rw [← (Token.word.inj hvalue).1, hcs]
    rfl

theorem Starts.letters_of_keyword {keyword : String} (h : l.Starts more)
    (hkeyword : l.token.isKeyword keyword = true) :
    ∃ c cs, l.source = c :: cs ∧ Text.keywordForm (String.ofList (c :: cs)) = keyword ∧
      (cs ++ more).takeWhile isWordPart = cs := by
  obtain ⟨value, htoken, hform⟩ := Token.eq_word_of_isKeyword hkeyword
  obtain ⟨c, cs, hsource, rfl, -, -, hcs⟩ := h.letters_of_word htoken
  exact ⟨c, cs, hsource, hform, hcs⟩

/-- The keyword starts with an A, and it ends in a character of a word. -/
theorem Starts.letters_of_as (h : l.Starts more) (hkeyword : l.token.isKeyword "AS" = true) :
    (∃ a cs, l.source = a :: cs ∧ (a = 'A' ∨ a = 'a')) ∧ ∀ c ∈ l.source.getLast?, isWordPart c = true := by
  obtain ⟨a, cs, hsource, hform, hcs⟩ := h.letters_of_keyword hkeyword
  have ha := Text.eq_letter_of_keywordForm hform
  refine ⟨⟨a, cs, hsource, ha⟩, ?_⟩
  intro c hc
  have hparts : ∀ d ∈ a :: cs, isWordPart d = true := by
    refine List.forall_mem_cons.2 ⟨?_, ?_⟩
    · rcases ha with rfl | rfl <;> decide
    · rw [← hcs]
      exact List.all_eq_true.1 List.all_takeWhile
  exact hparts c (hsource ▸ List.mem_of_getLast? hc)

/-- The keyword ends before a character that is none of a word, whatever comes after the character. -/
theorem Starts.of_as {d : Char} (h : l.Starts (d :: more)) (hkeyword : l.token.isKeyword "AS" = true)
    (more' : List Char) : l.Starts (d :: more') := by
  obtain ⟨⟨a, cs, hsource, ha⟩, -⟩ := h.letters_of_as hkeyword
  obtain ⟨a', cs', hsource', hstep⟩ := h
  obtain ⟨rfl, rfl⟩ := List.cons.inj (hsource.symm.trans hsource')
  refine ⟨a, cs, hsource, ?_⟩
  rw [step_letter ha] at hstep ⊢
  have hrun : ((cs ++ d :: more).takeWhile isWordPart).length ≤ cs.length :=
    Nat.le_of_eq (Prod.mk.inj (Except.ok.inj hstep)).2
  have hhead : (d :: more).head? = (d :: more').head? := rfl
  rw [← hstep, wordFrom, wordFrom, takeWhile_append_of_head_eq hhead hrun, takeWhile_append_of_le hrun]

/-- A lexeme before the letter A does not take it. -/
theorem Starts.not_takes {a : Char} (h : l.Starts (a :: more)) (ha : a = 'A' ∨ a = 'a') :
    takes l.source a = false := by
  refine Bool.eq_false_iff.2 ?_
  intro htakes
  obtain ⟨c, cs, hsource, hstep⟩ := h
  rcases cases_of_takes htakes with hopen | hquestion | ⟨-, rfl⟩ | ⟨-, rfl⟩
  · -- The comment would go on.
    rw [isOpenComment, hsource] at hopen
    split at hopen
    · next rest heq =>
      obtain ⟨rfl, rfl⟩ := List.cons.inj heq
      have hlength : lineComment (rest ++ a :: more) + 1 = rest.length + 1 :=
        (Prod.mk.inj (Except.ok.inj hstep)).2
      have hline : ∀ c ∈ rest, ¬ (c = '\n' ∨ c = '\r') := by simpa using hopen
      have hlong := lineComment_eq_length hline (a :: more)
      exact List.cons_ne_nil a more (eq_nil_of_lineComment (by omega))
    · cases hopen
  · obtain ⟨rfl, rfl⟩ := List.cons.inj (hsource.symm.trans hquestion)
    exact List.cons_ne_nil a more (eq_nil_of_step_question hstep)
  · exact absurd ha (by decide)
  · exact absurd ha (by decide)

end Lexeme
end Sql

end Routine
