import Routine.Proofs.Quotations

/-!
# Numbers, operators and words, and what follows them

These tokens have no closing mark: they end where a character stands that cannot continue them. None of the
characters that end tokens can, with two exceptions: a point continues a number, and a question mark takes
whatever character comes next.
-/

namespace Routine
namespace Sql
namespace Lexer

open Text (isBlank isAlphabetic)

variable {cs ds es : List Char}

/-! ## Words -/

theorem stop_not_word : ∀ s ∈ stops, isWordPart s = false := by
  intro s hs
  have h_ : s ≠ '_' := by
    rintro rfl
    exact absurd hs (by decide)
  have hdollar : s ≠ '$' := by
    rintro rfl
    exact absurd hs (by decide)
  simp [isWordPart, stop_not_alphabetic s hs, stop_not_digit s hs, h_, hdollar]

theorem wordFrom_local {first : List Char} {tok : Token} {k : Nat}
    (h : wordFrom first (cs ++ ds) = (tok, k))
    (hk : k ≤ cs.length) (hes : Follows ds es) : wordFrom first (cs ++ es) = (tok, k) := by
  obtain ⟨rfl, rfl⟩ := Prod.mk.inj h
  unfold wordFrom
  rw [takeWhile_local stop_not_word hes hk, takeWhile_append_of_le hk]

/-! ## Numbers -/

/-- How many signs an exponent has before its digits. -/
def signs (cs : List Char) : Nat :=
  if cs.head? = some '+' ∨ cs.head? = some '-' then 1 else 0

theorem exponent_cons (c : Char) (cs : List Char) :
    exponent (c :: cs) =
      if c = 'e' ∨ c = 'E' then
        if ((cs.drop (signs cs)).takeWhile Char.isDigit) = [] then []
        else c :: (cs.take (signs cs) ++ (cs.drop (signs cs)).takeWhile Char.isDigit)
      else [] := by
  unfold exponent signs
  obtain _ | ⟨s, cs⟩ := cs
  · simp
  · by_cases hs : s = '+' ∨ s = '-' <;> simp [hs]

theorem length_exponent_le (cs : List Char) : (exponent cs).length ≤ cs.length := by
  obtain _ | ⟨c, cs⟩ := cs
  · exact Nat.le_refl _
  · have hdigits := (List.takeWhile_prefix Char.isDigit (l := cs.drop (signs cs))).length_le
    rw [exponent_cons]
    split
    · split
      · exact Nat.zero_le _
      · rw [List.length_drop] at hdigits
        rw [List.length_cons, List.length_cons, List.length_append, List.length_take]
        omega
    · exact Nat.zero_le _

theorem exponent_of_breaks {es : List Char} (hes : Breaks es) : exponent es = [] := by
  obtain _ | ⟨s, es⟩ := es
  · rfl
  · rw [exponent_cons, if_neg]
    rintro (rfl | rfl)
    · exact hes.ne_cons (by decide) _ rfl
    · exact hes.ne_cons (by decide) _ rfl

theorem exponent_eq_nil {cs : List Char} (h : (exponent cs).length ≤ 1) : exponent cs = [] := by
  obtain _ | ⟨c, cs⟩ := cs
  · rfl
  · rw [exponent_cons] at h ⊢
    split
    · split
      · rfl
      · next hc hdigits =>
        have := List.length_pos_iff.2 hdigits
        rw [if_pos hc, if_neg hdigits, List.length_cons, List.length_append] at h
        omega
    · rfl

theorem exponent_local (h : (exponent (cs ++ ds)).length ≤ cs.length) (hes : Breaks es) :
    exponent (cs ++ es) = exponent (cs ++ ds) := by
  match cs with
  | [] => rw [exponent_eq_nil (Nat.le_succ_of_le h), List.nil_append, exponent_of_breaks hes]
  | [c] =>
    rw [exponent_eq_nil h, List.cons_append, List.nil_append, exponent_cons]
    have hsigns : signs es = 0 := by
      refine if_neg ?_
      rintro (hs | hs)
      · exact hes.head_ne (by decide) hs
      · exact hes.head_ne (by decide) hs
    have hnone : es.takeWhile Char.isDigit = [] := by
      have hends : ([] ++ es).takeWhile Char.isDigit = [].takeWhile Char.isDigit :=
        takeWhile_append_of_breaks break_not_digit hes
      exact hends
    rw [hsigns, List.drop_zero, hnone, if_pos rfl, ite_self]
  | c :: s :: cs =>
    have hle : signs (s :: cs) ≤ (s :: cs).length := by
      unfold signs
      split <;> simp
    have hexponent (xs : List Char) : exponent (c :: s :: cs ++ xs) =
        if c = 'e' ∨ c = 'E' then
          if ((s :: cs).drop (signs (s :: cs)) ++ xs).takeWhile Char.isDigit = [] then []
          else c :: ((s :: cs).take (signs (s :: cs)) ++
            ((s :: cs).drop (signs (s :: cs)) ++ xs).takeWhile Char.isDigit)
        else [] := by
      have htake : (s :: cs ++ xs).take (signs (s :: cs)) = (s :: cs).take (signs (s :: cs)) :=
        List.take_append_of_le_length hle
      rw [← List.drop_append_of_le_length hle, ← htake]
      exact exponent_cons c _
    rw [hexponent] at h ⊢
    rw [hexponent]
    split at h
    · have hdigits : (((s :: cs).drop (signs (s :: cs)) ++ ds).takeWhile Char.isDigit).length ≤
          ((s :: cs).drop (signs (s :: cs))).length := by
        split at h
        · next hnone =>
          rw [hnone]
          exact Nat.zero_le _
        · simp only [List.length_cons, List.length_append, List.length_take, List.length_drop] at h hle ⊢
          omega
      rw [takeWhile_append_of_le hdigits, takeWhile_append_of_breaks break_not_digit hes]
    · next hc => rw [if_neg hc, if_neg hc]

theorem takeWhile_drop_takeWhile (p : Char → Bool) (cs : List Char) :
    (cs.drop (cs.takeWhile p).length).takeWhile p = [] := by
  induction cs with
  | nil => rfl
  | cons c cs ih => by_cases hc : p c <;> simp [hc, ih]

/-- A point and the digits after it, if there is a point. -/
def fraction (cs : List Char) : List Char :=
  if cs.head? = some '.' then '.' :: cs.tail.takeWhile Char.isDigit else []

theorem fraction_cons (d : Char) (cs : List Char) :
    fraction (d :: cs) = if d = '.' then '.' :: cs.takeWhile Char.isDigit else [] := by
  simp [fraction]

theorem fraction_local (h : (fraction (cs ++ ds)).length ≤ cs.length) (hes : Breaks es)
    (hpoint : cs ≠ [] ∨ es.head? ≠ some '.') : fraction (cs ++ es) = fraction (cs ++ ds) := by
  obtain _ | ⟨d, cs⟩ := cs
  · rw [List.eq_nil_of_length_eq_zero (Nat.le_zero.1 h)]
    exact if_neg (hpoint.resolve_left (· rfl))
  · rw [List.cons_append, fraction_cons] at h
    rw [List.cons_append, List.cons_append, fraction_cons, fraction_cons]
    split at h
    · rw [List.length_cons, List.length_cons] at h
      rw [takeWhile_append_of_breaks break_not_digit hes, takeWhile_append_of_le (Nat.le_of_succ_le_succ h)]
    · next hd => rw [if_neg hd, if_neg hd]

/-- The digits of a number before its exponent, with its point among them. -/
def mantissa (cs : List Char) : List Char :=
  cs.takeWhile Char.isDigit ++ fraction (cs.drop (cs.takeWhile Char.isDigit).length)

theorem length_mantissa_le (cs : List Char) : (mantissa cs).length ≤ cs.length := by
  have hfraction (rest : List Char) : (fraction rest).length ≤ rest.length := by
    obtain _ | ⟨d, rest⟩ := rest
    · exact Nat.le_refl _
    · rw [fraction_cons]
      split
      · exact Nat.succ_le_succ (List.takeWhile_prefix _).length_le
      · exact Nat.zero_le _
  have hwhole := (List.takeWhile_prefix Char.isDigit (l := cs)).length_le
  have hrest := hfraction (cs.drop (cs.takeWhile Char.isDigit).length)
  rw [List.length_drop] at hrest
  rw [mantissa, List.length_append]
  omega

theorem mantissa_local (h : (mantissa (cs ++ ds)).length ≤ cs.length) (hes : Breaks es)
    (hpoint : (cs.takeWhile Char.isDigit).length < cs.length ∨ es.head? ≠ some '.') :
    mantissa (cs ++ es) = mantissa (cs ++ ds) := by
  unfold mantissa at h ⊢
  rw [List.length_append] at h
  have hwhole : (cs ++ ds).takeWhile Char.isDigit = cs.takeWhile Char.isDigit :=
    takeWhile_append_of_le (by omega)
  have hle : (cs.takeWhile Char.isDigit).length ≤ cs.length := (List.takeWhile_prefix _).length_le
  rw [hwhole, List.drop_append_of_le_length hle] at h
  rw [takeWhile_append_of_breaks break_not_digit hes, hwhole, List.drop_append_of_le_length hle,
    List.drop_append_of_le_length hle]
  refine congrArg _ (fraction_local (by rw [List.length_drop]; omega) hes ?_)
  exact hpoint.imp_left fun hinside hnil => absurd (List.drop_eq_nil_iff.1 hnil) (Nat.not_le.2 hinside)

/-- The text goes on with the mark of a hexadecimal number. -/
def IsHex (cs : List Char) : Prop :=
  cs.takeWhile Char.isDigit = ['0'] ∧ (cs.drop 1).head? = some 'x'

theorem exists_of_isHex {cs : List Char} (h : IsHex cs) : ∃ rest, cs = '0' :: 'x' :: rest := by
  obtain ⟨hwhole, hmark⟩ := h
  obtain _ | ⟨c, cs⟩ := cs
  · cases hwhole
  · have hc : c = '0' := by
      rw [List.takeWhile_cons] at hwhole
      split at hwhole
      · exact (List.cons.inj hwhole).1
      · cases hwhole
    obtain _ | ⟨d, cs⟩ := cs
    · cases hmark
    · exact ⟨cs, by rw [hc, Option.some.inj hmark]⟩

theorem numberFrom_of_hex (cs : List Char) :
    numberFrom ('0' :: 'x' :: cs) =
      (.string .hex (String.ofList (cs.takeWhile fun d => (digitValue? 16 d).isSome)),
        (cs.takeWhile fun d => (digitValue? 16 d).isSome).length + 2) := by
  have hzero : Char.isDigit '0' = true := rfl
  have hx : Char.isDigit 'x' = false := rfl
  simp [numberFrom, hzero, hx]

theorem numberFrom_of_not_hex {cs : List Char} (h : ¬ IsHex cs) :
    numberFrom cs =
      if mantissa cs = ['.'] then (.sign ".", 1)
      else
        let digits := mantissa cs ++ exponent (cs.drop (mantissa cs).length)
        let long := (cs.drop digits.length).head? = some 'L'
        (.number (String.ofList digits) long, digits.length + (if long then 1 else 0)) := by
  have hmantissa (point rest : List Char) (hrest : cs.drop (cs.takeWhile Char.isDigit).length = rest)
      (hpoint : point = if rest.head? = some '.' then ['.'] else []) :
      cs.takeWhile Char.isDigit ++ point ++ (rest.drop point.length).takeWhile Char.isDigit = mantissa cs := by
    subst hrest hpoint
    unfold mantissa fraction
    split
    · simp
    · -- The digits after the whole part are those of the fraction, and without a point there are none.
      simp [takeWhile_drop_takeWhile]
  unfold numberFrom
  dsimp only
  rw [if_neg, hmantissa _ _ rfl rfl]
  rintro ⟨hwhole, hmark⟩
  refine h ⟨hwhole, ?_⟩
  rwa [hwhole] at hmark

/-! ### What a number is spelled with -/

/-- An exponent is a letter, a sign or none, and digits. -/
theorem exponent_cases (cs : List Char) :
    exponent cs = [] ∨ ∃ e sign digits rest, cs = e :: (sign ++ (digits ++ rest)) ∧
      exponent cs = e :: (sign ++ digits) ∧ (e = 'e' ∨ e = 'E') ∧ sign ∈ [[], ['+'], ['-']] ∧ digits ≠ [] ∧
      ∀ d ∈ digits, d.isDigit = true := by
  cases cs with
  | nil => exact .inl rfl
  | cons e cs =>
    rw [exponent_cons]
    split
    · next he =>
      split
      · exact .inl rfl
      · next hdigits =>
        obtain ⟨rest, hrest⟩ := List.takeWhile_prefix Char.isDigit (l := cs.drop (signs cs))
        refine .inr ⟨e, cs.take (signs cs), _, rest, ?_, rfl, he, ?_, hdigits,
          List.all_eq_true.1 List.all_takeWhile⟩
        · rw [hrest, List.take_append_drop]
        · unfold signs
          split
          · next hsign =>
            cases cs with
            | nil => simp at hsign
            | cons a cs =>
              rcases hsign with hsign | hsign
              · simp [Option.some.inj hsign]
              · simp [Option.some.inj hsign]
          · simp
    · exact .inl rfl

theorem mantissa_prefix (cs : List Char) : mantissa cs <+: cs := by
  have hfraction (rest : List Char) : fraction rest <+: rest := by
    unfold fraction
    split
    · next hpoint =>
      cases rest with
      | nil => cases hpoint
      | cons a rest =>
        rw [Option.some.inj hpoint]
        exact (List.prefix_cons_inj '.').2 (List.takeWhile_prefix _)
    · exact List.nil_prefix
  obtain ⟨rest, hrest⟩ := hfraction (cs.drop (cs.takeWhile Char.isDigit).length)
  refine ⟨rest, ?_⟩
  rw [mantissa, List.append_assoc, hrest]
  exact List.prefix_iff_eq_append.1 (List.takeWhile_prefix _)

theorem mem_mantissa {cs : List Char} {a : Char} (h : a ∈ mantissa cs) : a.isDigit = true ∨ a = '.' := by
  rcases List.mem_append.1 h with h | h
  · exact .inl (List.all_eq_true.1 List.all_takeWhile a h)
  · unfold fraction at h
    split at h
    · rcases List.mem_cons.1 h with rfl | h
      · exact .inr rfl
      · exact .inl (List.all_eq_true.1 List.all_takeWhile a h)
    · cases h

theorem mantissa_ne_nil {c : Char} {cs : List Char} (hc : c.isDigit = true ∨ c = '.') : mantissa (c :: cs) ≠ [] := by
  rcases hc with hc | rfl
  · simp [mantissa, hc]
  · have hpoint : Char.isDigit '.' = false := rfl
    simp [mantissa, fraction, hpoint]

theorem exponent_prefix (cs : List Char) : exponent cs <+: cs := by
  rcases exponent_cases cs with hnil | ⟨e, sign, digits, rest, hcs, hexponent, -⟩
  · rw [hnil]
    exact List.nil_prefix
  · refine ⟨rest, ?_⟩
    rw [hexponent, hcs]
    simp

/-- Digits in hexadecimal are a string, and a point by itself is a sign. -/
theorem numberFrom_token (cs : List Char) :
    (∃ text, (numberFrom cs).1 = .string .hex text) ∨ (numberFrom cs).1 = .sign "." ∨
      ∃ text long, (numberFrom cs).1 = .number text long := by
  by_cases hhex : IsHex cs
  · obtain ⟨rest, rfl⟩ := exists_of_isHex hhex
    rw [numberFrom_of_hex]
    exact .inl ⟨_, rfl⟩
  · rw [numberFrom_of_not_hex hhex]
    split
    · exact .inr (.inl rfl)
    · exact .inr (.inr ⟨_, _, rfl⟩)

/-- A number is hexadecimal, or it has digits with a point among them, an exponent and a mark at its end, the last
two only if they are there. A point by itself is spelled like a number. -/
theorem exists_of_numberFrom {c : Char} {tail rest : List Char} (hc : c.isDigit = true ∨ c = '.')
    (h : (numberFrom (c :: (tail ++ rest))).2 - 1 = tail.length) :
    (∃ digits, c :: tail = '0' :: 'x' :: digits ∧ ∀ d ∈ digits, (digitValue? 16 d).isSome = true) ∨
      ∃ m xs long, c :: tail = m ++ exponent xs ++ long ∧ m ≠ [] ∧ (∀ a ∈ m, a.isDigit = true ∨ a = '.') ∧
        (long = [] ∨ long = ['L']) := by
  by_cases hhex : IsHex (c :: (tail ++ rest))
  · obtain ⟨rest', hrest'⟩ := exists_of_isHex hhex
    rw [hrest', numberFrom_of_hex] at h
    obtain ⟨rfl, hcs⟩ := List.cons.inj hrest'
    obtain ⟨rest'', hrest''⟩ := List.takeWhile_prefix (fun d => (digitValue? 16 d).isSome) (l := rest')
    have hdigits : ∀ d ∈ rest'.takeWhile (fun d => (digitValue? 16 d).isSome), (digitValue? 16 d).isSome = true :=
      List.all_eq_true.1 List.all_takeWhile
    generalize rest'.takeWhile (fun d => (digitValue? 16 d).isSome) = digits at *
    rw [← hrest'', ← List.cons_append] at hcs
    obtain ⟨rfl, -⟩ := List.append_inj hcs (by rw [← h, List.length_cons]; rfl)
    exact .inl ⟨digits, rfl, hdigits⟩
  · rw [numberFrom_of_not_hex hhex] at h
    have hm : ∀ a ∈ mantissa (c :: (tail ++ rest)), a.isDigit = true ∨ a = '.' := fun a => mem_mantissa
    have hne : mantissa (c :: (tail ++ rest)) ≠ [] := mantissa_ne_nil hc
    obtain ⟨xs, hxs⟩ := mantissa_prefix (c :: (tail ++ rest))
    generalize mantissa (c :: (tail ++ rest)) = m at *
    refine .inr ?_
    split at h
    · next hpoint =>
      obtain rfl : tail = [] := List.eq_nil_of_length_eq_zero h.symm
      rw [hpoint] at hxs hm
      obtain ⟨rfl, -⟩ := List.cons.inj hxs
      exact ⟨['.'], [], [], rfl, List.cons_ne_nil _ _, hm, .inl rfl⟩
    · obtain ⟨ys, hys⟩ := exponent_prefix xs
      have hcs : m ++ xs = (m ++ exponent xs) ++ ys := by rw [List.append_assoc, hys]
      have hpos : 0 < (m ++ exponent xs).length := by
        rw [List.length_append]
        exact Nat.add_pos_left (List.length_pos_iff.2 hne) _
      rw [← hxs, List.drop_left] at h
      dsimp only at h
      rw [hcs, List.drop_left] at h
      rw [hcs, ← List.cons_append] at hxs
      split at h
      · next hlong =>
        obtain ⟨zs, rfl⟩ := List.head?_eq_some_iff.1 hlong
        have hsource : (m ++ exponent xs) ++ ['L'] ++ zs = c :: tail ++ rest := by
          rw [← hxs]
          simp
        have hlength : ((m ++ exponent xs) ++ ['L']).length = (c :: tail).length := by
          rw [List.length_append, List.length_singleton, List.length_cons, ← h]
          rfl
        exact ⟨m, xs, ['L'], (List.append_inj_left hsource hlength).symm, hne, hm, .inr rfl⟩
      · have hsource := List.append_inj_left hxs (by rw [List.length_cons]; omega)
        exact ⟨m, xs, [], by rw [List.append_nil, hsource], hne, hm, .inl rfl⟩

theorem isHex_local (hcs : cs ≠ []) (hes : Breaks es) (h : ¬ IsHex (cs ++ ds)) : ¬ IsHex (cs ++ es) := by
  intro hhex
  obtain ⟨rest, hrest⟩ := exists_of_isHex hhex
  match cs with
  | [] => exact hcs rfl
  | [c] =>
    obtain ⟨-, rfl⟩ := List.cons.inj hrest
    exact hes.ne_cons (by decide) _ rfl
  | c :: d :: cs =>
    simp only [List.cons_append, List.cons.injEq] at hrest
    obtain ⟨rfl, rfl, -⟩ := hrest
    exact h ⟨rfl, rfl⟩

theorem takeWhile_isDigit_le {tok : Token} {n : Nat} (h : numberFrom cs = (tok, n)) :
    (cs.takeWhile Char.isDigit).length ≤ n := by
  by_cases hhex : IsHex cs
  · obtain ⟨rest, hrest⟩ := exists_of_isHex hhex
    rw [hrest, numberFrom_of_hex] at h
    cases h
    rw [hhex.1, List.length_singleton]
    omega
  · have hwhole : (cs.takeWhile Char.isDigit).length ≤ (mantissa cs).length := by
      rw [mantissa, List.length_append]
      exact Nat.le_add_right _ _
    rw [numberFrom_of_not_hex hhex] at h
    split at h
    · next hsign =>
      cases h
      rwa [hsign] at hwhole
    · cases h
      rw [List.length_append]
      omega

theorem numberFrom_le {tok : Token} {n : Nat} (h : numberFrom cs = (tok, n)) (hcs : cs ≠ []) :
    n ≤ cs.length := by
  by_cases hhex : IsHex cs
  · obtain ⟨rest, rfl⟩ := exists_of_isHex hhex
    rw [numberFrom_of_hex] at h
    cases h
    have := (List.takeWhile_prefix (fun d => (digitValue? 16 d).isSome) (l := rest)).length_le
    simpa using this
  · rw [numberFrom_of_not_hex hhex] at h
    split at h
    · cases h
      exact List.length_pos_iff.2 hcs
    · obtain ⟨-, rfl⟩ := Prod.mk.inj h
      have hmantissa := length_mantissa_le cs
      have hexponent := length_exponent_le (cs.drop (mantissa cs).length)
      rw [List.length_drop] at hexponent
      rw [List.length_append]
      split
      · next hlong =>
        refine Nat.lt_of_not_le ?_
        intro hend
        rw [List.drop_eq_nil_iff.2 hend] at hlong
        cases hlong
      · omega

theorem numberFrom_local {tok : Token} {n : Nat} (h : numberFrom (cs ++ ds) = (tok, n))
    (hcs : cs ≠ []) (hn : n ≤ cs.length) (hes : Follows ds es)
    (hpoint : (cs.takeWhile Char.isDigit).length < cs.length ∨ es.head? ≠ some '.') :
    numberFrom (cs ++ es) = (tok, n) := by
  by_cases hhex : IsHex (cs ++ ds)
  · obtain ⟨rest, hrest⟩ := exists_of_isHex hhex
    rw [hrest, numberFrom_of_hex] at h
    cases h
    obtain ⟨cs₁, rfl, hrest₁⟩ := exists_cons_of_append hrest (by omega)
    rw [List.length_cons] at hn
    obtain ⟨cs₂, rfl, rfl⟩ := exists_cons_of_append hrest₁ (by omega)
    rw [List.length_cons] at hn
    rw [List.cons_append, List.cons_append, numberFrom_of_hex,
      takeWhile_local stop_not_hex hes (by omega), takeWhile_append_of_le (by omega)]
  · rw [numberFrom_of_not_hex hhex] at h
    rw [numberFrom_of_not_hex (isHex_local hcs hes.breaks hhex)]
    split at h
    · next hsign =>
      cases h
      rw [mantissa_local (by rw [hsign]; exact hn) hes.breaks hpoint, if_pos hsign]
    · next hsign =>
      obtain ⟨rfl, rfl⟩ := Prod.mk.inj h
      generalize hm : mantissa (cs ++ ds) = m at *
      have hmantissa : mantissa (cs ++ es) = m := by
        rw [← hm]
        refine mantissa_local ?_ hes.breaks hpoint
        rw [hm]
        rw [List.length_append] at hn
        omega
      have hle : m.length ≤ cs.length := by
        rw [List.length_append] at hn
        omega
      rw [List.drop_append_of_le_length hle] at hn ⊢
      generalize hx : exponent (cs.drop m.length ++ ds) = x at *
      have hexponent : exponent (cs.drop m.length ++ es) = x := by
        rw [← hx]
        refine exponent_local ?_ hes.breaks
        rw [hx, List.length_drop]
        rw [List.length_append] at hn
        omega
      have hlong : ((cs ++ es).drop (m ++ x).length).head? = some 'L' ↔
          ((cs ++ ds).drop (m ++ x).length).head? = some 'L' := by
        have hinside : (m ++ x).length ≤ cs.length := by omega
        rw [List.drop_append_of_le_length hinside] at hn ⊢
        rw [List.drop_append_of_le_length hinside]
        cases hrest : cs.drop (m ++ x).length with
        | nil =>
          have hend : cs.length ≤ (m ++ x).length := List.drop_eq_nil_iff.1 hrest
          refine iff_of_false ?_ ?_
          · exact hes.breaks.head_ne (by decide)
          · intro hmark
            rw [hrest, if_pos hmark] at hn
            omega
        | cons d rest => rfl
      rw [hmantissa, if_neg hsign, List.drop_append_of_le_length hle, hexponent]
      simp only [hlong]

/-! ## Operators -/

theorem spelling_not_break {n : Named} (hn : n ∈ named) : ∀ s ∈ breaks, s ∉ n.spelling := by
  have hall : (named.all fun n => n.spelling.all fun c => !breaks.contains c) = true := by decide
  intro s hs hmem
  have hfree := List.all_eq_true.1 (List.all_eq_true.1 hall n hn) s hmem
  simp [hs] at hfree

/-- A spelling reaches past a text only if it has the character after it. -/
theorem isPrefixOf_append_of_breaks {n : Named} (hn : n ∈ named) (hes : Breaks es) :
    n.spelling.isPrefixOf (cs ++ es) = n.spelling.isPrefixOf cs := by
  rw [Bool.eq_iff_iff, List.isPrefixOf_iff_prefix, List.isPrefixOf_iff_prefix]
  refine ⟨?_, fun hpre => hpre.trans (List.prefix_append _ _)⟩
  intro hpre
  by_cases hle : n.spelling.length ≤ cs.length
  · exact List.prefix_of_prefix_length_le hpre (List.prefix_append _ _) hle
  · obtain ⟨tail, htail⟩ : cs <+: n.spelling :=
      List.prefix_of_prefix_length_le (List.prefix_append _ _) hpre (by omega)
    obtain _ | ⟨s, tail⟩ := tail
    · rw [List.append_nil] at htail
      exact absurd (htail ▸ Nat.le_refl _) hle
    · rw [← htail, List.prefix_append_right_inj] at hpre
      obtain ⟨rest, rfl⟩ := hpre
      exact absurd (htail ▸ (by simp)) (spelling_not_break hn s (hes s rfl))

theorem find?_named_local {n : Named}
    (h : (named.find? fun n => n.spelling.isPrefixOf (cs ++ ds)) = some n) (hn : n.spelling.length ≤ cs.length)
    (hes : Breaks es) : (named.find? fun n => n.spelling.isPrefixOf (cs ++ es)) = some n := by
  rw [List.find?_eq_some_iff_append] at h ⊢
  obtain ⟨hpre, as, bs, hnamed, has⟩ := h
  have hmem : n ∈ named := hnamed ▸ (by simp)
  refine ⟨?_, as, bs, hnamed, ?_⟩
  · rw [List.isPrefixOf_iff_prefix] at hpre ⊢
    exact (List.prefix_of_prefix_length_le hpre (List.prefix_append _ _) hn).trans (List.prefix_append _ _)
  · intro m hm
    have hnot := has m hm
    rw [isPrefixOf_append_of_breaks (hnamed ▸ List.mem_append_left _ hm) hes]
    simp only [Bool.not_eq_true', ← Bool.not_eq_true, List.isPrefixOf_iff_prefix] at hnot ⊢
    exact fun hpre => hnot (hpre.trans (List.prefix_append _ _))

theorem find?_named_none_local
    (h : (named.find? fun n => n.spelling.isPrefixOf (cs ++ ds)) = none)
    (hes : Breaks es) : (named.find? fun n => n.spelling.isPrefixOf (cs ++ es)) = none := by
  rw [List.find?_eq_none] at h ⊢
  intro m hm
  rw [isPrefixOf_append_of_breaks hm hes]
  have hnot := h m hm
  simp only [List.isPrefixOf_iff_prefix] at hnot ⊢
  exact fun hpre => hnot (hpre.trans (List.prefix_append _ _))

theorem operator_local {text : String} {taken : Nat} {tok : Token} {k : Nat}
    (h : operator text taken (cs ++ ds) = (tok, k)) (hk : k ≤ cs.length) (hes : Breaks es) :
    operator text taken (cs ++ es) = (tok, k) := by
  have htail : taken + (((cs ++ ds).drop taken).takeWhile isOperatorPart).length = k := by
    unfold operator at h
    dsimp only at h
    split at h
    · next hempty =>
      obtain ⟨-, rfl⟩ := Prod.mk.inj h
      rw [List.isEmpty_iff.1 hempty]
      rfl
    · exact (Prod.mk.inj h).2
  have hdrop (xs : List Char) : (cs ++ xs).drop taken = cs.drop taken ++ xs :=
    List.drop_append_of_le_length (by omega)
  rw [hdrop] at htail
  have hlocal : (cs.drop taken ++ ds).takeWhile isOperatorPart = (cs.drop taken).takeWhile isOperatorPart :=
    takeWhile_append_of_le (by rw [List.length_drop]; omega)
  simp only [operator, hdrop, hlocal] at h
  simp only [operator, hdrop, takeWhile_append_of_breaks break_not_operator hes, h]

theorem operator_taken {text : String} {taken : Nat} {cs : List Char} {tok : Token} {k : Nat}
    (h : operator text taken cs = (tok, k)) : taken ≤ k := by
  unfold operator at h
  grind

theorem le_of_read {n : Named} {cs : List Char} {tok : Token} {k : Nat} (h : n.read cs = (tok, k)) :
    n.spelling.length - 1 ≤ k := by
  unfold Named.read at h
  dsimp only at h
  split at h
  · exact operator_taken h
  · cases h
    exact Nat.le_refl _

/-- A sign or an operator ends where a character stands that ends tokens. -/
theorem operatorStep_le {c : Char} {tok : Token} {k : Nat}
    (h : operatorStep c (cs ++ es) = some (tok, k)) (hes : Breaks es) (hc : c = '?' → cs = [] → es = []) :
    k ≤ cs.length := by
  unfold operatorStep at h
  split at h
  · next n hn =>
    have hmem := List.mem_of_find?_eq_some hn
    have hpre := List.find?_some hn
    rw [← List.cons_append, isPrefixOf_append_of_breaks hmem hes, List.isPrefixOf_iff_prefix] at hpre
    have hle := hpre.length_le
    rw [List.length_cons] at hle
    have hread := Option.some.inj h
    unfold Named.read operator at hread
    dsimp only at hread
    rw [List.drop_append_of_le_length (by omega),
      takeWhile_append_of_breaks break_not_operator hes] at hread
    have htail := (List.takeWhile_prefix isOperatorPart (l := cs.drop (n.spelling.length - 1))).length_le
    rw [List.length_drop] at htail
    split at hread
    · split at hread
      · cases hread
        omega
      · cases hread
        omega
    · cases hread
      omega
  · split at h
    · next hquestion =>
      cases h
      obtain _ | ⟨d, cs⟩ := cs
      · rw [hc hquestion rfl]
        exact Nat.le_refl _
      · rw [List.length_cons]
        omega
    · cases h

theorem operatorStep_local {c : Char} {tok : Token} {k : Nat}
    (h : operatorStep c (cs ++ ds) = some (tok, k)) (hk : k ≤ cs.length) (hes : Breaks es)
    (hc : c = '?' → cs = [] → es = []) : operatorStep c (cs ++ es) = some (tok, k) := by
  unfold operatorStep at h ⊢
  rw [← List.cons_append] at h ⊢
  split at h
  · next n hn =>
    have hread := Option.some.inj h
    have hle := le_of_read hread
    rw [find?_named_local hn (by rw [List.length_cons]; omega) hes]
    refine congrArg some ?_
    unfold Named.read at hread ⊢
    dsimp only at hread ⊢
    split
    · next hgrows =>
      rw [if_pos hgrows] at hread
      exact operator_local hread hk hes
    · next hgrows => rwa [if_neg hgrows] at hread
  · next hn =>
    rw [find?_named_none_local hn hes]
    dsimp only
    split at h
    · next hquestion =>
      cases h
      rw [if_pos hquestion]
      obtain _ | ⟨d, cs⟩ := cs
      · rw [hc hquestion rfl]
        rw [List.nil_append, List.length_nil] at hk
        obtain _ | ⟨d, ds⟩ := ds
        · rfl
        · simp at hk
      · simp
    · cases h

theorem operatorStep_none_local {c : Char} {cs ds es : List Char} (h : operatorStep c (cs ++ ds) = none)
    (hes : Breaks es) : operatorStep c (cs ++ es) = none := by
  unfold operatorStep at h ⊢
  rw [← List.cons_append] at h ⊢
  split at h
  · cases h
  · next hn =>
    rw [find?_named_none_local hn hes]
    dsimp only
    split at h
    · cases h
    · next hc => rw [if_neg hc]

end Lexer
end Sql
end Routine
