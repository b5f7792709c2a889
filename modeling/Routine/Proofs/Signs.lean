import Routine.Proofs.Cuts

/-!
# Signs and what spells them

A sign is a mark of punctuation, a point, or an operator of the dialect that nothing makes longer
(`step_sign`). An operator is spelled as the table of operators has it, and what comes after it tells a sign
from a longer operator (`operatorStep_cases`). So the signs of an assignment have one spelling each.
-/

namespace Routine
namespace Sql
namespace Lexer

open Text (isBlank)

variable {c : Char} {cs : List Char} {tok : Token} {k : Nat} {text : String}

/-- A property of the characters of a list is decided one by one, and not for all characters there are. -/
theorem forall_mem_of_all {p : Char → Prop} [DecidablePred p] (h : (cs.all fun a => decide (p a)) = true) :
    ∀ a ∈ cs, p a :=
  fun a ha => of_decide_eq_true (List.all_eq_true.1 h a ha)

/-! ## Operators -/

/-- The characters after the first one of an operator that stands alone, and those of a longer one. -/
theorem Named.read_cases {n : Named} (h : n.read cs = (tok, k)) :
    tok = .sign n.shown ∧ k = n.spelling.length - 1 ∧
        (n.grows = true → (cs.drop (n.spelling.length - 1)).takeWhile isOperatorPart = []) ∨
      n.grows = true ∧ (∃ text, tok = .custom text) ∧
        k = n.spelling.length - 1 + ((cs.drop (n.spelling.length - 1)).takeWhile isOperatorPart).length := by
  unfold read operator at h
  dsimp only at h
  split at h
  · next hgrows =>
    split at h
    · next hempty =>
      cases h
      exact .inl ⟨rfl, rfl, fun _ => List.isEmpty_iff.1 hempty⟩
    · cases h
      exact .inr ⟨hgrows, ⟨_, rfl⟩, rfl⟩
  · next hgrows =>
    cases h
    exact .inl ⟨rfl, rfl, fun hyes => absurd hyes hgrows⟩

/-- How an operator of the dialect is spelled, with what makes it longer. -/
theorem exists_run_of_read {tail rest : List Char} {n : Named}
    (hstarts : n.spelling <+: c :: (tail ++ rest)) (hne : n.spelling ≠ [])
    (h : n.read (tail ++ rest) = (tok, tail.length)) :
    ∃ run, c :: tail = n.spelling ++ run ∧ (∀ a ∈ run, isOperatorPart a = true) ∧
      (run = [] ∨ n.grows = true ∧ ∃ text, tok = .custom text) ∧
      (n.grows = true → rest.takeWhile isOperatorPart = []) := by
  obtain ⟨more, hmore⟩ := hstarts
  obtain ⟨a, spelling, hspelling⟩ := List.exists_cons_of_ne_nil hne
  rw [hspelling] at hmore ⊢
  obtain ⟨rfl, htext⟩ := List.cons.inj hmore
  have hlength : n.spelling.length - 1 = spelling.length := by
    rw [hspelling]
    rfl
  have hdrop : (tail ++ rest).drop (n.spelling.length - 1) = more := by
    rw [← htext, hlength]
    exact List.drop_left
  have hread := Named.read_cases h
  rw [hdrop, hlength] at hread
  rcases hread with ⟨-, htail, hstops⟩ | ⟨hgrows, hcustom, htail⟩
  · obtain ⟨rfl, rfl⟩ := List.append_inj htext htail.symm
    exact ⟨[], (List.append_nil _).symm, (fun _ ha => nomatch ha), .inl rfl, hstops⟩
  · obtain ⟨rest', hrest'⟩ := List.takeWhile_prefix isOperatorPart (l := more)
    have hmax := takeWhile_drop_takeWhile isOperatorPart more
    have hall : ∀ a ∈ more.takeWhile isOperatorPart, isOperatorPart a = true :=
      List.all_eq_true.1 List.all_takeWhile
    generalize more.takeWhile isOperatorPart = run at *
    subst hrest'
    have htext : spelling ++ run ++ rest' = tail ++ rest := (List.append_assoc _ _ _).trans htext
    obtain ⟨rfl, rfl⟩ := List.append_inj htext (by rw [List.length_append, htail])
    rw [List.drop_left] at hmax
    exact ⟨run, rfl, hall, .inr ⟨hgrows, hcustom⟩, fun _ => hmax⟩

/-- An operator is one that the dialect names, with what makes it longer, or a question mark. -/
theorem operatorStep_cases (h : operatorStep c cs = some (tok, k)) :
    (∃ n ∈ named, n.spelling <+: c :: cs ∧ n.read cs = (tok, k)) ∨
      c = '?' ∧ tok = .sign "?" ∧ k = min 1 cs.length := by
  unfold operatorStep at h
  split at h
  · next n hn =>
    have hstarts := List.find?_some hn
    exact .inl ⟨n, List.mem_of_find?_eq_some hn, List.isPrefixOf_iff_prefix.1 hstarts, Option.some.inj h⟩
  · split at h
    · next hquestion =>
      cases h
      exact .inr ⟨hquestion, rfl, rfl⟩
    · cases h

/-! ## Signs -/

/-- The signs that stand for themselves, whatever comes after them. -/
def punctuation : List Char := ['(', ')', ',', ';', '\\', '[', ']', '{', '}']

theorem numberFrom_sign (h : (numberFrom cs).1 = .sign text) : text = "." := by
  obtain ⟨text, htok⟩ | htok | ⟨text, long, htok⟩ := numberFrom_token cs
  · cases h.symm.trans htok
  · exact Token.sign.inj (h.symm.trans htok)
  · cases h.symm.trans htok

theorem step_sign (h : step c cs = .ok (.sign text, k)) :
    c ∈ punctuation ∧ text = c.toString ∧ k = 0 ∨ text = "." ∨
      operatorStep c cs = some (.sign text, k) := by
  cases reads_of_step h with
  | punctuation hsign htok hk => exact .inl ⟨hsign, Token.sign.inj htok, hk⟩
  | number hnumber htok hk => exact .inr (.inl (numberFrom_sign htok.symm))
  | operator hplain hoperator => exact .inr (.inr hoperator)
  | quotation hc hstring =>
    obtain ⟨value, n, -, hother, -⟩ := exists_of_stringStep hstring
    cases hother
  | dollar hc hdollar => rcases exists_of_dollarStep hdollar with ⟨tag, value, hother⟩ | ⟨name, hother⟩ <;> cases hother
  | letter hnumber hletter =>
    obtain ⟨⟨kind, value, hother⟩, -⟩ := letterStep_closes hletter
    cases hother
  | word hletter hstart hread => cases hread
  | quotedWord hc hbody hother => cases hother
  | lineBreak hc hcs hother hk | lineComment hc hcs hother hk | blank hblank hother hk => cases hother
  | blockComment hc hcs hcomment hother hk => cases hother
  | other hplain hsign hoperator hstart hother hk => cases hother

end Lexer

/-! ## The signs of an assignment -/

open Lexer

/-- A sign of an assignment is spelled as it is shown. -/
theorem Lexeme.Starts.source_of_sign {l : Lexeme} {more : List Char} {text : String} (h : l.Starts more)
    (htoken : l.token = .sign text) (htext : text = ":=" ∨ text = "=") : l.source = text.toList := by
  obtain ⟨c, cs, hsource, hstep⟩ := h
  rw [htoken] at hstep
  rcases step_sign hstep with ⟨hpunctuation, rfl, -⟩ | rfl | hoperator
  · have hne : ∀ d ∈ punctuation, d.toString ≠ ":=" ∧ d.toString ≠ "=" :=
      forall_mem_of_all (by decide)
    rcases htext with htext | htext
    · exact absurd htext (hne c hpunctuation).1
    · exact absurd htext (hne c hpunctuation).2
  · exact absurd htext (by decide)
  · rcases operatorStep_cases hoperator with ⟨n, hn, hstarts, hread⟩ | ⟨-, hquestion, -⟩
    · rcases Named.read_cases hread with ⟨hshown, hlength, -⟩ | ⟨-, ⟨_, hcustom⟩, -⟩
      · have hspelling : ∀ n ∈ named, n.shown = ":=" ∨ n.shown = "=" → n.spelling = n.shown.toList := by decide
        obtain rfl : text = n.shown := Token.sign.inj hshown
        have hspelled := hspelling n hn htext
        have hlong : n.spelling.length = cs.length + 1 := by
          have hpos : 0 < n.spelling.length := by
            rw [hspelled]
            rcases htext with htext | htext
            · rw [htext]; decide
            · rw [htext]; decide
          omega
        rw [← List.cons_append, ← hsource] at hstarts
        have hwhole : n.spelling = l.source :=
          (List.prefix_of_prefix_length_le hstarts (List.prefix_append _ _)
            (by rw [hsource, List.length_cons]; omega)).eq_of_length (by rw [hsource, List.length_cons]; omega)
        rw [← hwhole, hspelled]
      · cases hcustom
    · obtain rfl := Token.sign.inj hquestion
      exact absurd htext (by decide)

end Sql
end Routine
