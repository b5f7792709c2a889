import Routine.Proofs.PlainTokens

/-!
# Where tokens end

A step of the lexer looks at all of the text after a character. All that it can do is said once, as a case for
each kind of token (`reads_of_step`). What it answers depends on the text up to the end of the token only, if a
character that ends tokens comes next, or the letter A where it came before, and the token does not take it
(`step_local`). A token ends within the text (`step_le`), and a blank at its end can be left out of it
(`step_shed`).
-/

namespace Routine
namespace Sql
namespace Lexer

open Text (isBlank)

variable {cs ds es : List Char} {tok : Token} {k : Nat}

/-! ## Strings and quotations -/

theorem stringStep_local {kind : StringKind} {mark : Char} {escapes : Bool} {opening : Nat}
    (h : stringStep kind mark escapes opening (cs ++ ds) = .ok (tok, k))
    (hk : k ≤ opening + cs.length) (hes : es.head? ≠ some mark) :
    stringStep kind mark escapes opening (cs ++ es) = .ok (tok, k) := by
  unfold stringStep at h ⊢
  cases hbody : quotedBody mark escapes (cs ++ ds) with
  | none => rw [hbody] at h; cases h
  | some body =>
    rw [hbody] at h
    cases h
    rw [quotedBody_local hbody (by omega) hes]

theorem exists_of_stringStep {kind : StringKind} {mark : Char} {escapes : Bool} {opening : Nat}
    (h : stringStep kind mark escapes opening cs = .ok (tok, k)) :
    ∃ t n, quotedBody mark escapes cs = some (t, n) ∧ tok = .string kind (String.ofList t) ∧ k = opening + n := by
  unfold stringStep at h
  split at h
  · next t n hbody =>
    cases h
    exact ⟨t, n, hbody, rfl, rfl⟩
  · cases h

theorem le_of_stringStep {kind : StringKind} {mark : Char} {escapes : Bool} {opening : Nat}
    (h : stringStep kind mark escapes opening cs = .ok (tok, k)) : opening ≤ k := by
  obtain ⟨text, n, -, -, rfl⟩ := exists_of_stringStep h
  exact Nat.le_add_right _ _

/-- A dollar starts a quotation or a parameter. -/
theorem exists_of_dollarStep (h : dollarStep cs = .ok (tok, k)) :
    (∃ tag text, tok = .dollar tag text) ∨ ∃ name, tok = .placeholder name := by
  unfold dollarStep at h
  split at h
  · split at h
    · cases h
      exact .inl ⟨_, _, rfl⟩
    · cases h
  · dsimp only at h
    split at h
    · split at h
      · cases h
        exact .inl ⟨_, _, rfl⟩
      · cases h
    · cases h
      exact .inr ⟨_, rfl⟩

/-- A quotation that a letter introduces is a string and ends in its quote. -/
theorem letterStep_closes {c : Char}
    (h : letterStep c cs = some (.ok (tok, k))) :
    (∃ kind text, tok = .string kind text) ∧ 0 < k ∧ (cs[k - 1]? = some '\'' ∨ cs[k - 1]? = some '"') := by
  have hstring {kind : StringKind} {mark : Char} {escapes : Bool} {body : List Char}
      (h : stringStep kind mark escapes 1 body = .ok (tok, k)) (d : Char) :
      (∃ kind text, tok = .string kind text) ∧ 0 < k ∧ (d :: body)[k - 1]? = some mark := by
    unfold stringStep at h
    split at h
    · next hbody =>
      cases h
      obtain ⟨hpos, hmark⟩ := quotedBody_closes hbody
      refine ⟨⟨_, _, rfl⟩, ?_⟩
      grind
    · cases h
  fun_cases letterStep c cs
  case case1 | case2 | case5 | case6 | case7 | case8 =>
    exact (hstring (Option.some.inj h) _).imp_right (And.imp_right .inl)
  case case3 | case4 => exact (hstring (Option.some.inj h) _).imp_right (And.imp_right .inr)
  case case9 | case10 =>
    rename_i body
    have hstring := Option.some.inj h
    cases hbody : escapedBody body with
    | none => rw [hbody] at hstring; cases hstring
    | some text =>
      rw [hbody] at hstring
      cases hstring
      obtain ⟨hpos, hmark⟩ := escapedBody_closes hbody
      refine ⟨⟨_, _, rfl⟩, ?_⟩
      grind
  case case11 | case12 =>
    obtain ⟨⟨text, n⟩, hbody, heq⟩ := bind_eq_ok (Option.some.inj h)
    cases heq
    obtain ⟨hpos, hmark⟩ := unicodeBody_closes hbody
    refine ⟨⟨_, _, rfl⟩, ?_⟩
    grind
  case case13 =>
    unfold letterStep at h
    grind

theorem letterStep_local {c : Char}
    (h : letterStep c (cs ++ ds) = some (.ok (tok, k))) (hk : k ≤ cs.length) (hes : Breaks es) :
    letterStep c (cs ++ es) = some (.ok (tok, k)) := by
  generalize hx : cs ++ ds = x at h
  fun_cases letterStep c x
  case case1 | case2 | case3 | case4 | case5 | case6 | case7 | case8 =>
    have hstring := Option.some.inj h
    have hopening := le_of_stringStep hstring
    obtain ⟨cs, rfl, rfl⟩ := exists_cons_of_append hx (by omega)
    rw [List.length_cons] at hk
    exact congrArg some (stringStep_local hstring (by omega) (hes.head_ne (by decide)))
  case case9 | case10 =>
    rename_i body
    have hstring := Option.some.inj h
    cases hbody : escapedBody body with
    | none => rw [hbody] at hstring; cases hstring
    | some text =>
      rw [hbody] at hstring
      cases hstring
      obtain ⟨cs, rfl, rfl⟩ := exists_cons_of_append hx (by omega)
      rw [List.length_cons] at hk
      simp only [List.cons_append, letterStep, escapedBody_local hbody (by omega) (hes.head_ne (by decide))]
  case case11 | case12 =>
    have hstring := Option.some.inj h
    obtain ⟨⟨text, n⟩, hbody, heq⟩ := bind_eq_ok hstring
    cases heq
    have hlt := (unicodeBody_closes hbody).1
    obtain ⟨cs₁, rfl, hx₁⟩ := exists_cons_of_append hx (by omega)
    rw [List.length_cons] at hk
    obtain ⟨cs₂, rfl, rfl⟩ := exists_cons_of_append hx₁ (by omega)
    rw [List.length_cons] at hk
    simp only [List.cons_append, letterStep, unicodeBody_local hbody (by omega) (hes.head_ne (by decide))]
    rfl
  case case13 =>
    unfold letterStep at h
    grind

theorem letterStep_none_local {c : Char} (h : letterStep c (cs ++ ds) = none)
    (hes : Breaks es) : letterStep c (cs ++ es) = none := by
  generalize hy : cs ++ es = y
  fun_cases letterStep c y
  case case13 => rfl
  case case11 | case12 =>
    match cs with
    | [] => exact absurd hy (hes.ne_cons (by decide) _)
    | [_] => exact absurd (List.cons.inj hy).2 (hes.ne_cons (by decide) _)
    | _ :: _ :: _ =>
      simp only [List.cons_append, List.cons.injEq] at hy
      obtain ⟨rfl, rfl, -⟩ := hy
      cases h
  all_goals
    obtain _ | ⟨d, cs⟩ := cs
    · exact absurd hy (hes.ne_cons (by decide) _)
    · obtain ⟨rfl, -⟩ := List.cons.inj hy
      cases h

/-! ## Tokens with an opening mark -/

theorem step_doubleQuote (cs : List Char) :
    step '"' cs =
      match quotedBody '"' false cs with
      | some (text, n) => .ok (.word (String.ofList text) true, n)
      | none => .error ("Expected close delimiter '\"' before EOF.", 0) := rfl

theorem step_lineComment (rest : List Char) :
    step '-' ('-' :: rest) = .ok (.gap, lineComment rest + 1) := rfl

theorem step_blockComment (rest : List Char) :
    step '/' ('*' :: rest) =
      match blockComment 1 rest with
      | some n => .ok (.gap, n + 1)
      | none => .error ("Unexpected EOF while in a multi-line comment", rest.length + 2) := rfl

/-! ## Tokens without an opening mark -/

/-- The token that starts with a character which opens no comment and no quotation. -/
def plainStep (c : Char) (cs : List Char) : Step :=
  if c = ' ' ∨ c = '\t' ∨ c = '\n' ∨ c = '\r' then .ok (.gap, 0)
  else if c.isDigit ∨ c = '.' then .ok ((numberFrom (c :: cs)).1, (numberFrom (c :: cs)).2 - 1)
  else if c ∈ ['(', ')', ',', ';', '\\', '[', ']', '{', '}'] then .ok (.sign c.toString, 0)
  else
    match letterStep c cs with
    | some answer => answer
    | none =>
      match operatorStep c cs with
      | some answer => .ok answer
      | none =>
        if isWordStart c then .ok (wordFrom [c] cs)
        else if isBlank c then .ok (.gap, 0)
        else .ok (.char c, 0)

/-- The character opens no comment and no quotation, and no line break of two characters. -/
structure IsPlain (c : Char) (cs : List Char) : Prop where
  quote : c ≠ '\''
  doubleQuote : c ≠ '"'
  dollar : c ≠ '$'
  lineBreak : ∀ rest, c = '\r' → cs = '\n' :: rest → False
  lineComment : ∀ rest, c = '-' → cs = '-' :: rest → False
  blockComment : ∀ rest, c = '/' → cs = '*' :: rest → False

/-- Most characters are plain whatever comes after them. -/
theorem IsPlain.of_not_mem {c : Char} (h : c ∉ ['\'', '"', '$', '\r', '-', '/']) (cs : List Char) : IsPlain c cs := by
  simp only [List.mem_cons, List.not_mem_nil, or_false, not_or] at h
  obtain ⟨hquote, hdouble, hdollar, hreturn, hminus, hslash⟩ := h
  exact ⟨hquote, hdouble, hdollar, fun _ hc => absurd hc hreturn, fun _ hc => absurd hc hminus,
    fun _ hc => absurd hc hslash⟩

theorem IsPlain.step_eq {c : Char} (h : IsPlain c cs) : step c cs = plainStep c cs := by
  rw [step]
  · rfl
  · exact h.quote
  · exact h.doubleQuote
  · exact h.dollar
  · exact h.lineBreak
  · exact h.lineComment
  · exact h.blockComment

/-- A character that is not plain opens a quotation, a comment or a line break of two characters. -/
theorem isPlain_or (c : Char) (cs : List Char) :
    IsPlain c cs ∨ c = '\'' ∨ c = '"' ∨ c = '$' ∨ (∃ rest, c = '\r' ∧ cs = '\n' :: rest) ∨
      (∃ rest, c = '-' ∧ cs = '-' :: rest) ∨ ∃ rest, c = '/' ∧ cs = '*' :: rest := by
  refine Classical.byContradiction ?_
  intro hnone
  simp only [not_or, not_exists, not_and] at hnone
  obtain ⟨hplain, hquote, hdouble, hdollar, hbreak, hline, hblock⟩ := hnone
  exact hplain ⟨hquote, hdouble, hdollar, hbreak, hline, hblock⟩

/-- What a character starts with the text after it: a case for each kind of token, with what tells it from the
kinds before it where that matters. -/
inductive Reads (c : Char) (cs : List Char) (tok : Token) (k : Nat) : Prop
  | quotation (hc : c = '\'') (hstring : stringStep .plain '\'' false 0 cs = .ok (tok, k))
  | quotedWord {text : List Char} (hc : c = '"') (hbody : quotedBody '"' false cs = some (text, k))
      (htok : tok = .word (String.ofList text) true)
  | dollar (hc : c = '$') (hdollar : dollarStep cs = .ok (tok, k))
  | lineBreak {rest : List Char} (hc : c = '\r') (hcs : cs = '\n' :: rest) (htok : tok = .gap) (hk : k = 1)
  | lineComment {rest : List Char} (hc : c = '-') (hcs : cs = '-' :: rest) (htok : tok = .gap)
      (hk : k = Lexer.lineComment rest + 1)
  | blockComment {rest : List Char} {n : Nat} (hc : c = '/') (hcs : cs = '*' :: rest)
      (hcomment : Lexer.blockComment 1 rest = some n) (htok : tok = .gap) (hk : k = n + 1)
  | blank (hblank : isBlank c = true) (htok : tok = .gap) (hk : k = 0)
  | number (hnumber : c.isDigit = true ∨ c = '.') (htok : tok = (numberFrom (c :: cs)).1)
      (hk : k = (numberFrom (c :: cs)).2 - 1)
  | punctuation (hsign : c ∈ ['(', ')', ',', ';', '\\', '[', ']', '{', '}']) (htok : tok = .sign c.toString)
      (hk : k = 0)
  | letter (hnumber : ¬ (c.isDigit = true ∨ c = '.')) (hletter : letterStep c cs = some (.ok (tok, k)))
  | operator (hplain : IsPlain c cs) (hoperator : operatorStep c cs = some (tok, k))
  | word (hletter : letterStep c cs = none) (hstart : isWordStart c = true) (hread : wordFrom [c] cs = (tok, k))
  | other (hplain : IsPlain c cs) (hsign : c ∉ ['(', ')', ',', ';', '\\', '[', ']', '{', '}'])
      (hoperator : operatorStep c cs = none) (hstart : isWordStart c = false) (htok : tok = .char c) (hk : k = 0)

theorem IsPlain.reads {c : Char} (hplain : IsPlain c cs) (h : plainStep c cs = .ok (tok, k)) :
    Reads c cs tok k := by
  unfold plainStep at h
  split at h
  · next hblank =>
    cases h
    refine .blank ?_ rfl rfl
    rcases hblank with rfl | rfl | rfl | rfl
    all_goals decide
  · split at h
    · next hnumber =>
      cases h
      exact .number hnumber rfl rfl
    · next hnumber =>
      split at h
      · next hsign =>
        cases h
        exact .punctuation hsign rfl rfl
      · next hsign =>
        split at h
        · next hletter => exact .letter hnumber (h ▸ hletter)
        · next hletter =>
          split at h
          · next hoperator =>
            obtain rfl := Except.ok.inj h
            exact .operator hplain hoperator
          · next hoperator =>
            split at h
            · next hstart => exact .word hletter hstart (Except.ok.inj h)
            · next hstart =>
              split at h
              · next hblank =>
                cases h
                exact .blank hblank rfl rfl
              · cases h
                exact .other hplain hsign hoperator (Bool.eq_false_iff.2 hstart) rfl rfl

/-- **All that a step can do.** What later modules say about single tokens is read off these cases. -/
theorem reads_of_step {c : Char} (h : step c cs = .ok (tok, k)) : Reads c cs tok k := by
  rcases isPlain_or c cs with
    hplain | rfl | rfl | rfl | ⟨rest, rfl, rfl⟩ | ⟨rest, rfl, rfl⟩ | ⟨rest, rfl, rfl⟩
  · exact hplain.reads (hplain.step_eq ▸ h)
  · exact .quotation rfl h
  · cases hbody : quotedBody '"' false cs with
    | none =>
      simp only [step_doubleQuote, hbody] at h
      cases h
    | some body =>
      simp only [step_doubleQuote, hbody] at h
      cases h
      exact .quotedWord rfl hbody rfl
  · exact .dollar rfl h
  · cases h
    exact .lineBreak rfl rfl rfl rfl
  · cases h
    exact .lineComment rfl rfl rfl rfl
  · cases hcomment : blockComment 1 rest with
    | none =>
      simp only [step_blockComment, hcomment] at h
      cases h
    | some n =>
      simp only [step_blockComment, hcomment] at h
      cases h
      exact .blockComment rfl rfl hcomment rfl rfl

theorem IsPlain.local {c : Char} (h : IsPlain c (cs ++ ds)) (hes : Breaks es)
    (hbreak : c = '\r' → cs = [] → es.head? ≠ some '\n') : IsPlain c (cs ++ es) where
  quote := h.quote
  doubleQuote := h.doubleQuote
  dollar := h.dollar
  lineBreak := by
    intro rest hc hrest
    obtain _ | ⟨d, cs⟩ := cs
    · exact hbreak hc rfl (congrArg List.head? hrest)
    · obtain ⟨rfl, -⟩ := List.cons.inj hrest
      exact h.lineBreak _ hc rfl
  lineComment := by
    intro rest hc hrest
    obtain _ | ⟨d, cs⟩ := cs
    · exact hes.ne_cons (by decide) _ hrest
    · obtain ⟨rfl, -⟩ := List.cons.inj hrest
      exact h.lineComment _ hc rfl
  blockComment := by
    intro rest hc hrest
    obtain _ | ⟨d, cs⟩ := cs
    · exact hes.ne_cons (by decide) _ hrest
    · obtain ⟨rfl, -⟩ := List.cons.inj hrest
      exact h.blockComment _ hc rfl

/-- A number that ends within a text is the same whatever stands after the text, unless digits take a point. -/
theorem numberFrom_cons_local {c : Char} (hnumber : c.isDigit = true ∨ c = '.')
    (hk : (numberFrom (c :: (cs ++ ds))).2 - 1 ≤ cs.length) (hes : Follows ds es)
    (hpoint : c.isDigit = true → (numberFrom (c :: (cs ++ ds))).2 - 1 = cs.length → es.head? ≠ some '.') :
    numberFrom (c :: (cs ++ es)) = numberFrom (c :: (cs ++ ds)) := by
  have hread : numberFrom (c :: cs ++ ds) =
      ((numberFrom (c :: (cs ++ ds))).1, (numberFrom (c :: (cs ++ ds))).2) := rfl
  refine numberFrom_local hread (List.cons_ne_nil _ _) (by rw [List.length_cons]; omega) hes ?_
  rcases hnumber with hdigit | rfl
  · by_cases hend : (numberFrom (c :: (cs ++ ds))).2 - 1 = cs.length
    · exact .inr (hpoint hdigit hend)
    · -- The number ends before the text does, so its leading digits do.
      refine .inl ?_
      have hdigits := takeWhile_isDigit_le hread
      rw [List.length_cons]
      have hlonger : ((c :: cs).takeWhile Char.isDigit).length ≤
          ((c :: cs ++ ds).takeWhile Char.isDigit).length := by
        rw [List.takeWhile_append]
        split
        · next hall => rw [hall, List.length_append]; exact Nat.le_add_right _ _
        · exact Nat.le_refl _
      omega
  · exact .inl (by simp)

theorem plainStep_local {c : Char}
    (h : plainStep c (cs ++ ds) = .ok (tok, k)) (hk : k ≤ cs.length) (hes : Follows ds es)
    (hquestion : c = '?' → cs = [] → es = [])
    (hpoint : c.isDigit = true → k = cs.length → es.head? ≠ some '.') :
    plainStep c (cs ++ es) = .ok (tok, k) := by
  unfold plainStep at h ⊢
  split
  · next hblank => rwa [if_pos hblank] at h
  · next hblank =>
    rw [if_neg hblank] at h
    split
    · next hnumber =>
      rw [if_pos hnumber] at h
      obtain ⟨-, rfl⟩ := Prod.mk.inj (Except.ok.inj h)
      rw [numberFrom_cons_local hnumber hk hes hpoint]
      exact h
    · next hnumber =>
      rw [if_neg hnumber] at h
      split
      · next hsign => rwa [if_pos hsign] at h
      · next hsign =>
        rw [if_neg hsign] at h
        cases hletter : letterStep c (cs ++ ds) with
        | some answer =>
          rw [hletter] at h
          obtain rfl : answer = .ok (tok, k) := h
          rw [letterStep_local hletter hk hes.breaks]
        | none =>
          rw [hletter] at h
          rw [letterStep_none_local hletter hes.breaks]
          cases hoperator : operatorStep c (cs ++ ds) with
          | some answer =>
            rw [hoperator] at h
            obtain rfl : answer = (tok, k) := Except.ok.inj h
            rw [operatorStep_local hoperator hk hes.breaks hquestion]
          | none =>
            rw [hoperator] at h
            rw [operatorStep_none_local hoperator hes.breaks]
            dsimp only at h ⊢
            split
            · next hword =>
              rw [if_pos hword] at h
              exact congrArg Except.ok (wordFrom_local (Except.ok.inj h) hk hes)
            · next hword => rwa [if_neg hword] at h

/-- The token is a comment or a quotation, given its first character. A number in hexadecimal is a string, but
starts with a digit. -/
def isOpaque (c : Char) : Token → Bool
  | .gap => c = '-' || c = '/'
  | .string _ _ => !c.isDigit
  | .dollar _ _ => true
  | .word _ inQuotes => inQuotes
  | _ => false

/-! ## All tokens -/

/-- A character that ends tokens belongs to the token with this source nevertheless: a comment up to the end of
the line takes every character, a question mark takes the next one, a number takes a point, and a line break
may have two characters. -/
def takes (source : List Char) (s : Char) : Bool :=
  match source with
  | '-' :: '-' :: rest => !rest.any fun c => c = '\n' || c = '\r'
  | ['?'] => true
  | ['\r'] => s = '\n'
  | c :: _ => c.isDigit && s = '.'
  | [] => false

theorem takes_lineBreak : takes ['\r'] '\n' = true := rfl

theorem takes_question (s : Char) : takes ['?'] s = true := rfl

theorem takes_lineComment {rest : List Char} (h : ∀ c ∈ rest, ¬ (c = '\n' ∨ c = '\r')) (s : Char) :
    takes ('-' :: '-' :: rest) s = true := by
  simpa [takes] using h

theorem takes_digit {c : Char} (h : c.isDigit = true) (cs : List Char) : takes (c :: cs) '.' = true := by
  unfold takes
  split
  case h_4 heq =>
    obtain ⟨rfl, rfl⟩ := List.cons.inj heq
    simpa using h
  case h_5 heq => cases heq
  all_goals
    next heq =>
    obtain ⟨rfl, -⟩ := List.cons.inj heq
    exact absurd h (by decide)

/-- A token that ends within a text is the same whatever stands after the text, as long as it can follow a token
that ends there. -/
theorem step_local {c : Char}
    (h : step c (cs ++ ds) = .ok (tok, k)) (hk : k ≤ cs.length) (hes : Follows ds es)
    (hfree : k = cs.length → ∀ s ∈ es.head?, takes (c :: cs) s = false) :
    step c (cs ++ es) = .ok (tok, k) := by
  have hnil (htakes : ∀ s, takes (c :: cs) s = true) (hend : k = cs.length) : es = [] := by
    obtain _ | ⟨s, es⟩ := es
    · rfl
    · exact absurd (hfree hend s rfl) (by rw [htakes]; decide)
  rcases isPlain_or c (cs ++ ds) with
    hplain | rfl | rfl | rfl | ⟨rest, rfl, hrest⟩ | ⟨rest, rfl, hrest⟩ | ⟨rest, rfl, hrest⟩
  · rw [hplain.step_eq] at h
    have hbreak : c = '\r' → cs = [] → es.head? ≠ some '\n' := by
      rintro rfl rfl hhead
      exact absurd (hfree (Nat.le_zero.1 hk) _ hhead) (by rw [takes_lineBreak]; decide)
    rw [(hplain.local hes.breaks hbreak).step_eq]
    refine plainStep_local h hk hes ?_ ?_
    · rintro rfl rfl
      exact hnil takes_question (Nat.le_zero.1 hk)
    · intro hdigit hend hhead
      exact absurd (hfree hend _ hhead) (by rw [takes_digit hdigit]; decide)
  · exact stringStep_local h (by omega) (hes.breaks.head_ne (by decide))
  · cases hbody : quotedBody '"' false (cs ++ ds) with
    | none =>
      simp only [step_doubleQuote, hbody] at h
      cases h
    | some body =>
      simp only [step_doubleQuote, hbody] at h
      cases h
      simp only [step_doubleQuote, quotedBody_local hbody hk (hes.breaks.head_ne (by decide))]
  · exact dollarStep_local h hk hes
  · rw [hrest] at h
    cases h
    obtain ⟨cs, rfl, rfl⟩ := exists_cons_of_append hrest (by omega)
    rfl
  · rw [hrest] at h
    cases h
    obtain ⟨cs, rfl, rfl⟩ := exists_cons_of_append hrest (by omega)
    rw [List.length_cons] at hk hfree
    by_cases hclosed : ∃ c ∈ cs, c = '\n' ∨ c = '\r'
    · rw [List.cons_append, step_lineComment, lineComment_local hclosed ds es]
    · -- The comment is open, so it ends where all text ends.
      have hopen : ∀ c ∈ cs, ¬ (c = '\n' ∨ c = '\r') := fun c hc hend => hclosed ⟨c, hc, hend⟩
      have hlength := lineComment_eq_length hopen ds
      have hnone : lineComment ds = 0 := by omega
      obtain rfl := eq_nil_of_lineComment hnone
      obtain rfl := hnil (takes_lineComment hopen) (by rw [List.length_cons]; omega)
      rfl
  · rw [hrest] at h
    cases hcomment : blockComment 1 rest with
    | none =>
      simp only [step_blockComment, hcomment] at h
      cases h
    | some n =>
      simp only [step_blockComment, hcomment] at h
      cases h
      obtain ⟨cs, rfl, rfl⟩ := exists_cons_of_append hrest (by omega)
      rw [List.length_cons] at hk
      simp only [List.cons_append, step_blockComment, blockComment_local hcomment (Nat.le_of_succ_le_succ hk)]

/-- A token that ends within a text is the same when the text ends. -/
theorem step_stop {c : Char} (h : step c (cs ++ ds) = .ok (tok, k)) (hk : k ≤ cs.length) :
    step c cs = .ok (tok, k) := by
  have hlocal := step_local h hk (Ends.nil.follows _) (by simp)
  rwa [List.append_nil] at hlocal

/-- A quotation between dollars ends in a dollar, and no other token that starts with one takes a character that
ends tokens. -/
theorem dollarStep_reach (h : dollarStep (cs ++ es) = .ok (tok, k)) (hes : Ends es) :
    k ≤ cs.length ∨ isOpaque '$' tok = true ∧ ∃ q ∉ stops, (cs ++ es)[k - 1]? = some q := by
  by_cases hdollar : ∃ rest, cs ++ es = '$' :: rest
  · obtain ⟨rest, hrest⟩ := hdollar
    rw [hrest, dollarStep] at h
    cases hbody : untaggedBody rest with
    | none => rw [hbody] at h; cases h
    | some body =>
      rw [hbody] at h
      cases h
      obtain ⟨hpos, hmark⟩ := untaggedBody_closes hbody
      rw [hrest, Nat.add_sub_cancel, ← Nat.sub_add_cancel hpos, List.getElem?_cons_succ]
      exact .inr ⟨rfl, _, by decide, hmark⟩
  · have htagged : taggedStep (cs ++ es) = .ok (tok, k) :=
      dollarStep_of_ne (fun rest hrest => hdollar ⟨rest, hrest⟩) ▸ h
    rcases taggedStep_closes htagged with ⟨⟨tag, text, rfl⟩, hmark⟩ | hlength
    · exact .inr ⟨rfl, _, by decide, hmark⟩
    · -- No body opens here: the token is a parameter, and none of its characters ends tokens.
      rw [takeWhile_append_of_ends stop_not_tag hes] at hlength
      exact .inl (hlength ▸ (List.takeWhile_prefix _).length_le)

/-- A comment up to the end of the line ends within a text that has a line break, or that nothing follows. -/
theorem lineComment_le_of_open (h : (∀ c ∈ cs, ¬ (c = '\n' ∨ c = '\r')) → es = []) :
    lineComment (cs ++ es) ≤ cs.length := by
  by_cases hclosed : ∃ c ∈ cs, c = '\n' ∨ c = '\r'
  · have hlocal := lineComment_local hclosed [] es
    rw [List.append_nil] at hlocal
    exact Nat.le_trans (Nat.le_of_eq hlocal) (length_lineComment_le cs)
  · obtain rfl := h fun c hc hend => hclosed ⟨c, hc, hend⟩
    rw [List.append_nil]
    exact length_lineComment_le cs

/-- A number stays within a text that a character after it ends, if it does not take a point. -/
theorem numberFrom_le_of_ends {c : Char} (hnumber : c.isDigit = true ∨ c = '.') (hes : Ends es)
    (hpoint : c.isDigit = true → es.head? ≠ some '.') : (numberFrom (c :: (cs ++ es))).2 - 1 ≤ cs.length := by
  have hle : (numberFrom (c :: (cs ++ []))).2 - 1 ≤ cs.length := by
    rw [List.append_nil]
    exact Nat.sub_le_of_le_add (numberFrom_le rfl (List.cons_ne_nil _ _))
  rwa [numberFrom_cons_local hnumber hle (hes.follows _) fun hdigit _ => hpoint hdigit]

/-- A token stays within a text that a character after it ends, unless it takes the character, or is a comment or
a quotation, which ends in a mark of its own. -/
theorem step_reach {c : Char} (h : step c (cs ++ es) = .ok (tok, k))
    (hes : Ends es) (hfree : ∀ s ∈ es.head?, takes (c :: cs) s = false) :
    k ≤ cs.length ∨ isOpaque c tok = true ∧ ∃ q ∉ stops, (cs ++ es)[k - 1]? = some q := by
  have hnil (htakes : ∀ s, takes (c :: cs) s = true) : es = [] := by
    obtain _ | ⟨s, es⟩ := es
    · rfl
    · exact absurd (hfree s rfl) (by rw [htakes]; decide)
  cases reads_of_step h with
  | quotation hc hstring =>
    obtain ⟨text, n, hbody, rfl, hk⟩ := exists_of_stringStep hstring
    rw [hk, hc, Nat.zero_add]
    exact .inr ⟨rfl, _, by decide, (quotedBody_closes hbody).2⟩
  | quotedWord hc hbody htok =>
    rw [htok]
    exact .inr ⟨rfl, _, by decide, (quotedBody_closes hbody).2⟩
  | dollar hc hdollar =>
    subst hc
    exact dollarStep_reach hdollar hes
  | lineBreak hc hcs htok hk =>
    subst hc hk
    obtain _ | ⟨d, cs⟩ := cs
    · exact absurd (hfree '\n' (congrArg List.head? hcs)) (by rw [takes_lineBreak]; decide)
    · exact .inl (by simp)
  | lineComment hc hcs htok hk =>
    subst hc hk
    obtain _ | ⟨d, cs⟩ := cs
    · exact absurd hcs (hes.breaks.ne_cons (by decide) _)
    · obtain ⟨rfl, rfl⟩ := List.cons.inj hcs
      exact .inl (Nat.succ_le_succ (lineComment_le_of_open fun hopen => hnil (takes_lineComment hopen)))
  | blockComment hc hcs hcomment htok hk =>
    obtain ⟨hpos, hmark⟩ := blockComment_closes hcomment
    rw [hc, hcs, htok, hk, Nat.add_sub_cancel, ← Nat.sub_add_cancel hpos, List.getElem?_cons_succ]
    exact .inr ⟨rfl, _, by decide, hmark⟩
  | number hnumber htok hk =>
    rw [hk]
    refine .inl (numberFrom_le_of_ends hnumber hes ?_)
    intro hdigit hhead
    exact absurd (hfree _ hhead) (by rw [takes_digit hdigit]; decide)
  | letter hnumber hletter =>
    obtain ⟨⟨kind, text, rfl⟩, -, hquote⟩ := letterStep_closes hletter
    have hquoted : isOpaque c (.string kind text) = true := by
      simpa [isOpaque] using fun hc => hnumber (.inl hc)
    rcases hquote with hquote | hquote
    · exact .inr ⟨hquoted, _, by decide, hquote⟩
    · exact .inr ⟨hquoted, _, by decide, hquote⟩
  | operator hplain hoperator =>
    refine .inl (operatorStep_le hoperator hes.breaks ?_)
    rintro rfl rfl
    exact hnil takes_question
  | word hletter hstart hread =>
    cases hread
    rw [takeWhile_append_of_ends stop_not_word hes]
    exact .inl (List.takeWhile_prefix _).length_le
  | blank hblank htok hk | punctuation hsign htok hk | other hplain hsign hoperator hstart htok hk =>
    rw [hk]
    exact .inl (Nat.zero_le _)

theorem getElem?_lt {i : Nat} {c : Char} (h : cs[i]? = some c) : i < cs.length :=
  (List.getElem?_eq_some_iff.1 h).1

/-- A token ends with the text, or before it. -/
theorem step_le {c : Char} (h : step c cs = .ok (tok, k)) :
    k ≤ cs.length := by
  rw [← List.append_nil cs] at h
  rcases step_reach h Ends.nil (fun _ hs => nomatch hs) with hle | ⟨-, q, -, hq⟩
  · exact hle
  · rw [List.append_nil] at hq
    have := getElem?_lt hq
    omega

theorem step_question_eq (cs : List Char) :
    step '?' cs = match operatorStep '?' cs with
      | some answer => .ok answer
      | none => .ok (.char '?', 0) := by
  have hletter : letterStep '?' cs = none := rfl
  have hplain : IsPlain '?' cs := .of_not_mem (by decide) cs
  have hstart : isWordStart '?' = false := by decide
  have hblank : isBlank '?' = false := by decide
  rw [hplain.step_eq]
  simp [plainStep, hletter, hstart, hblank]

/-- A question mark takes a character along that ends tokens. -/
theorem step_question {b : Char} (hb : b ∈ stops) (ds : List Char) :
    step '?' (b :: ds) = .ok (.sign "?", 1) := by
  have hes : Ends (b :: ds) := by
    rintro s ⟨⟩
    exact hb
  have hnone : (named.find? fun n => n.spelling.isPrefixOf (['?'] ++ [])) = none := by decide
  have hfind := find?_named_none_local hnone hes.breaks
  rw [List.singleton_append] at hfind
  rw [step_question_eq]
  simp [operatorStep, hfind]

/-- A question mark stands alone at the end of a text only. -/
theorem eq_nil_of_step_question (h : step '?' cs = .ok (tok, 0)) : cs = [] := by
  have hlong : ∀ n ∈ named, n.spelling.isPrefixOf ('?' :: cs) = true → 2 ≤ n.spelling.length := by
    have hhead : ∀ n ∈ named, n.spelling.head? = some '?' → 2 ≤ n.spelling.length := by decide
    have hnil : ∀ n ∈ named, n.spelling ≠ [] := by decide
    intro n hn hpre
    refine hhead n hn ?_
    obtain ⟨tail, htail⟩ := List.isPrefixOf_iff_prefix.1 hpre
    obtain ⟨c, rest, hcons⟩ := List.exists_cons_of_ne_nil (hnil n hn)
    rw [hcons] at htail ⊢
    rw [(List.cons.inj htail).1]
    rfl
  rw [step_question_eq] at h
  unfold operatorStep at h
  cases hfind : named.find? fun n => n.spelling.isPrefixOf ('?' :: cs) with
  | some n =>
    rw [hfind] at h
    have hread := le_of_read (Except.ok.inj h)
    have hpre : n.spelling.isPrefixOf ('?' :: cs) = true := by simpa using List.find?_some hfind
    have := hlong n (List.mem_of_find?_eq_some hfind) hpre
    omega
  | none =>
    rw [hfind] at h
    obtain _ | ⟨c, cs⟩ := cs
    · rfl
    · simp at h

/-- A blank that ends a token can be left out of it. -/
theorem step_shed {c b : Char} (h : step c (cs ++ b :: ds) = .ok (tok, cs.length + 1))
    (hb : isBlank b = true) : step c cs = .ok (tok, cs.length) := by
  have hstop := mem_stops_of_isBlank hb
  have hes : Ends (b :: ds) := by
    rintro s ⟨⟩
    exact hstop
  by_cases hfree : takes (c :: cs) b = false
  · exfalso
    rcases step_reach h hes (by rintro s ⟨⟩; exact hfree) with hle | ⟨-, q, hq, hlast⟩
    · omega
    · rw [Nat.add_sub_cancel, List.getElem?_append_right (Nat.le_refl _), Nat.sub_self] at hlast
      cases hlast
      exact hq hstop
  · -- What takes a blank is a comment, a question mark or a line break, and it is the same token without it.
    unfold takes at hfree
    split at hfree
    · next rest heq =>
      obtain ⟨rfl, rfl⟩ := List.cons.inj heq
      have hopen : ∀ c ∈ rest, ¬ (c = '\n' ∨ c = '\r') := by simpa using hfree
      obtain ⟨rfl, -⟩ := Prod.mk.inj (Except.ok.inj h)
      have hlength := lineComment_eq_length hopen []
      rw [List.append_nil] at hlength
      rw [step_lineComment, hlength]
      rfl
    · next heq =>
      obtain ⟨rfl, rfl⟩ := List.cons.inj heq
      have hquestion := step_question hstop ds
      obtain ⟨rfl, -⟩ := Prod.mk.inj (Except.ok.inj (hquestion.symm.trans h))
      rfl
    · next heq =>
      obtain ⟨rfl, rfl⟩ := List.cons.inj heq
      obtain rfl : b = '\n' := by simpa using hfree
      obtain ⟨rfl, -⟩ := Prod.mk.inj (Except.ok.inj h)
      rfl
    · obtain rfl : b = '.' := by simp at hfree; exact hfree.2
      exact absurd hb (by decide)
    · exact absurd rfl hfree

end Lexer
end Sql
end Routine
