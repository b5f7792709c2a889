import Routine.Sql.Lexer

/-!
# Quotations and comments, and what follows them

A body that is read up to its closing mark is read the same whatever follows the mark, as long as what follows
does not make the mark part of the body. That holds before every character that ends tokens: a blank, a comma,
a semicolon, a closing parenthesis or a point. For each kind of body there is a lemma that it ends in its mark
(`…_closes`) and a lemma that it does not depend on what follows (`…_local`). A letter ends a token only if the
token does not take it; after the letter A no token has to look further to see that it ends (`Follows`).
-/

namespace Routine
namespace Sql
namespace Lexer

open Text (isBlank isAlphabetic isNumeric)

/-! ## Characters that end tokens -/

/-- The characters that end tokens: those that are blank, and four others. -/
def stops : List Char :=
  [' ', '\t', '\n', '\x0b', '\x0c', '\r', '\u0085', '\u00a0', '\u1680', '\u2000', '\u2001', '\u2002',
   '\u2003', '\u2004', '\u2005', '\u2006', '\u2007', '\u2008', '\u2009', '\u200a', '\u2028', '\u2029',
   '\u202f', '\u205f', '\u3000', ',', ';', ')', '.']

theorem mem_stops_of_isBlank {s : Char} (h : isBlank s = true) : s ∈ stops := by
  have hcode : ∀ n ∈ stops.map Char.toNat, s.toNat = n → s ∈ stops := by
    intro n hn heq
    obtain ⟨c, hc, rfl⟩ := List.mem_map.1 hn
    rwa [Char.toNat_inj.1 heq]
  refine hcode _ ?_ rfl
  unfold isBlank at h
  split at h
  · simp [stops] at h ⊢
    rcases h with rfl | h
    · simp
    · omega
  · rw [Text.Ranges.holds_iff] at h
    simp [Text.blankRanges, stops] at h ⊢
    omega

/-- The characters that end numbers and operators: those that end tokens, and the letter A. Without a look at
what comes after it, the letter is not the start of an exponent. -/
def breaks : List Char :=
  'A' :: 'a' :: stops

theorem eq_false_of_all {cs : List Char} {p : Char → Bool} (h : (cs.all fun s => !p s) = true) :
    ∀ s ∈ cs, p s = false := by
  intro s hs
  simpa using List.all_eq_true.1 h s hs

/-- Two characters differ if one belongs to a class and the other does not. -/
theorem ne_of_holds {p : Char → Bool} {a b : Char} (ha : p a = true) (hb : p b = false) : a ≠ b := by
  rintro rfl
  rw [ha] at hb
  cases hb

theorem not_mem_of_holds {p : Char → Bool} {a : Char} {cs : List Char} (ha : p a = true)
    (hcs : (cs.all fun s => !p s) = true) : a ∉ cs := by
  intro hmem
  exact ne_of_holds ha (eq_false_of_all hcs a hmem) rfl

theorem stop_not_alphabetic : ∀ s ∈ stops, isAlphabetic s = false := eq_false_of_all (by decide +kernel)

theorem stop_not_numeric : ∀ s ∈ stops, isNumeric s = false := eq_false_of_all (by decide +kernel)

theorem stop_not_hex : ∀ s ∈ stops, (digitValue? 16 s).isSome = false :=
  eq_false_of_all (p := fun s => (digitValue? 16 s).isSome) (by decide)

theorem break_not_operator : ∀ s ∈ breaks, isOperatorPart s = false := eq_false_of_all (by decide)

theorem break_not_digit : ∀ s ∈ breaks, s.isDigit = false := eq_false_of_all (by decide)

theorem mem_breaks_of_mem_stops {s : Char} (h : s ∈ stops) : s ∈ breaks :=
  List.mem_cons_of_mem _ (List.mem_cons_of_mem _ h)

theorem stop_not_digit : ∀ s ∈ stops, s.isDigit = false :=
  fun s hs => break_not_digit s (mem_breaks_of_mem_stops hs)

/-- The text is empty, or it starts with a character that ends tokens. -/
def Ends (es : List Char) : Prop :=
  ∀ s ∈ es.head?, s ∈ stops

theorem Ends.nil : Ends [] := fun _ h => nomatch h

/-- The text is empty, or it starts with a character that ends numbers and operators. -/
def Breaks (es : List Char) : Prop :=
  ∀ s ∈ es.head?, s ∈ breaks

theorem Ends.breaks {es : List Char} (hes : Ends es) : Breaks es :=
  fun s hs => mem_breaks_of_mem_stops (hes s hs)

theorem Breaks.head_ne {es : List Char} (hes : Breaks es) {a : Char} (ha : a ∉ breaks) : es.head? ≠ some a :=
  fun hhead => ha (hes a hhead)

theorem Breaks.ne_cons {es : List Char} (hes : Breaks es) {a : Char} (ha : a ∉ breaks) (tail : List Char) :
    es ≠ a :: tail := by
  rintro rfl
  exact ha (hes a rfl)

/-- The second text can come in the place of the first after a token that ends before it. -/
def Follows (ds es : List Char) : Prop :=
  Ends es ∨ Breaks es ∧ ds.head? = es.head?

theorem Ends.follows {es : List Char} (hes : Ends es) (ds : List Char) : Follows ds es := .inl hes

theorem Follows.breaks {ds es : List Char} (h : Follows ds es) : Breaks es :=
  h.elim Ends.breaks And.left

/-! ## Runs of characters -/

variable {cs ds es : List Char}

theorem exists_cons_of_append {l : List Char} {a : Char} (h : cs ++ ds = a :: l) (hcs : 0 < cs.length) :
    ∃ cs', cs = a :: cs' ∧ cs' ++ ds = l := by
  cases cs with
  | nil => cases hcs
  | cons c cs =>
    obtain ⟨rfl, rfl⟩ := List.cons.inj h
    exact ⟨cs, rfl, rfl⟩

theorem takeWhile_append_of_le {p : Char → Bool}
    (h : ((cs ++ ds).takeWhile p).length ≤ cs.length) : (cs ++ ds).takeWhile p = cs.takeWhile p := by
  rw [List.takeWhile_append] at h ⊢
  split at h
  · next hall =>
    rw [List.length_append] at h
    have hnone : ds.takeWhile p = [] := List.eq_nil_of_length_eq_zero (by omega)
    rw [if_pos hall, hnone, List.append_nil, (List.takeWhile_prefix p).eq_of_length hall]
  · next hsome => rw [if_neg hsome]

theorem takeWhile_append_of_head {p : Char → Bool} (hes : ∀ s ∈ es.head?, p s = false) :
    (cs ++ es).takeWhile p = cs.takeWhile p := by
  have hnone : es.takeWhile p = [] := by
    cases es with
    | nil => rfl
    | cons s es => rw [List.takeWhile_cons, hes s rfl, if_neg Bool.false_ne_true]
  rw [List.takeWhile_append, hnone, List.append_nil]
  split
  · next hall => exact ((List.takeWhile_prefix p).eq_of_length hall).symm
  · rfl

theorem takeWhile_append_of_ends {p : Char → Bool} (hp : ∀ s ∈ stops, p s = false) (hes : Ends es) :
    (cs ++ es).takeWhile p = cs.takeWhile p :=
  takeWhile_append_of_head fun s hs => hp s (hes s hs)

theorem takeWhile_append_of_breaks {p : Char → Bool} (hp : ∀ s ∈ breaks, p s = false) (hes : Breaks es) :
    (cs ++ es).takeWhile p = cs.takeWhile p :=
  takeWhile_append_of_head fun s hs => hp s (hes s hs)

/-- A run that ends within a text stops at the first character after it, or before. -/
theorem takeWhile_append_of_head_eq {p : Char → Bool} (hhead : ds.head? = es.head?)
    (h : ((cs ++ ds).takeWhile p).length ≤ cs.length) : (cs ++ es).takeWhile p = cs.takeWhile p := by
  by_cases hall : (cs.takeWhile p).length = cs.length
  · refine takeWhile_append_of_head ?_
    intro s hs
    rw [← hhead] at hs
    obtain ⟨tail, rfl⟩ := List.head?_eq_some_iff.1 hs
    rw [List.takeWhile_append, if_pos hall, List.length_append, List.takeWhile_cons] at h
    by_cases hp : p s = true
    · rw [if_pos hp, List.length_cons] at h
      omega
    · exact Bool.eq_false_iff.2 hp
  · rw [List.takeWhile_append, if_neg hall]

theorem takeWhile_local {p : Char → Bool} (hp : ∀ s ∈ stops, p s = false) (hes : Follows ds es)
    (h : ((cs ++ ds).takeWhile p).length ≤ cs.length) : (cs ++ es).takeWhile p = cs.takeWhile p := by
  rcases hes with hes | ⟨-, hhead⟩
  · exact takeWhile_append_of_ends hp hes
  · exact takeWhile_append_of_head_eq hhead h

theorem takeWhile_take_local {p : Char → Bool} {m : Nat}
    (h : (((cs ++ ds).take m).takeWhile p).length < cs.length) :
    ((cs ++ es).take m).takeWhile p = ((cs ++ ds).take m).takeWhile p := by
  by_cases hm : m ≤ cs.length
  · rw [List.take_append_of_le_length hm, List.take_append_of_le_length hm]
  · have htake (xs : List Char) : (cs ++ xs).take m = cs ++ xs.take (m - cs.length) := by
      rw [List.take_append, List.take_of_length_le (by omega)]
    rw [htake] at h
    have hinside : (cs.takeWhile p).length ≠ cs.length := by
      intro hall
      rw [List.takeWhile_append, if_pos hall, List.length_append] at h
      omega
    rw [htake, htake, List.takeWhile_append, List.takeWhile_append, if_neg hinside, if_neg hinside]

/-! ## Bodies between marks -/

theorem quotedBody_mark (mark : Char) (escapes : Bool) (cs : List Char) :
    quotedBody mark escapes (mark :: cs) =
      if cs.head? = some mark then
        (quotedBody mark escapes cs.tail).map fun (text, n) => (mark :: text, n + 2)
      else some ([], 1) := by
  cases cs with
  | nil =>
    show (if mark = mark then some ([], 1) else _) = _
    simp
  | cons d ds =>
    show (if mark = mark then if d = mark then _ else _ else _) = _
    simp

theorem quotedBody_escape {mark : Char} (hm : '\\' ≠ mark) (d : Char) (ds : List Char) :
    quotedBody mark true ('\\' :: d :: ds) =
      (quotedBody mark true ds).map fun (text, n) => (simpleEscape d :: text, n + 2) := by
  show (if '\\' = mark then _ else if '\\' = '\\' ∧ true = true then _ else _) = _
  rw [if_neg hm, if_pos ⟨rfl, rfl⟩]

theorem quotedBody_plain {mark : Char} {escapes : Bool} {c : Char} (hc : c ≠ mark)
    (hescape : ¬ (c = '\\' ∧ escapes = true)) (cs : List Char) :
    quotedBody mark escapes (c :: cs) =
      (quotedBody mark escapes cs).map fun (text, n) => (c :: text, n + 1) := by
  cases cs with
  | nil =>
    show (if c = mark then _ else if c = '\\' ∧ escapes = true then none else none) = _
    rw [if_neg hc, if_neg hescape]
    rfl
  | cons d ds =>
    show (if c = mark then _ else if c = '\\' ∧ escapes = true then _ else _) = _
    rw [if_neg hc, if_neg hescape]

theorem quotedBody_lone {mark : Char} {escapes : Bool} {c : Char} (hc : c ≠ mark) :
    quotedBody mark escapes [c] = none := by
  show (if c = mark then _ else if c = '\\' ∧ escapes = true then none else none) = _
  rw [if_neg hc, ite_self]

/-- What ends in a mark still does after one more character. -/
theorem closes_cons {x : List Char} {n : Nat} {mark : Char} (c : Char) (h : 0 < n ∧ x[n - 1]? = some mark) :
    0 < n + 1 ∧ (c :: x)[n + 1 - 1]? = some mark := by
  obtain ⟨hpos, hmark⟩ := h
  refine ⟨Nat.succ_pos n, ?_⟩
  rwa [Nat.add_sub_cancel, ← Nat.sub_add_cancel hpos, List.getElem?_cons_succ]

theorem quotedBody_closes {mark : Char} {escapes : Bool} {x t : List Char} {n : Nat}
    (h : quotedBody mark escapes x = some (t, n)) :
    0 < n ∧ x[n - 1]? = some mark := by
  induction x using quotedBody.induct mark escapes generalizing t n with
  | case1 => cases h
  | case2 ds ih =>
    simp [quotedBody_mark] at h
    obtain ⟨text, m, hm, -, rfl⟩ := h
    exact closes_cons mark (closes_cons mark (ih hm))
  | case3 d ds hd =>
    simp [quotedBody_mark, hd] at h
    obtain ⟨-, rfl⟩ := h
    simp
  | case4 =>
    simp [quotedBody_mark] at h
    obtain ⟨-, rfl⟩ := h
    simp
  | case5 c hc hescape d ds ih =>
    obtain ⟨rfl, rfl⟩ := hescape
    simp [quotedBody_escape hc] at h
    obtain ⟨text, m, hm, -, rfl⟩ := h
    exact closes_cons '\\' (closes_cons d (ih hm))
  | case6 c hc hescape => simp [quotedBody_lone hc] at h
  | case7 c cs hc hescape ih =>
    simp [quotedBody_plain hc hescape] at h
    obtain ⟨text, m, hm, -, rfl⟩ := h
    exact closes_cons c (ih hm)

theorem quotedBody_local {mark : Char} {escapes : Bool} {t : List Char} {n : Nat}
    (h : quotedBody mark escapes (cs ++ ds) = some (t, n))
    (hn : n ≤ cs.length) (hes : es.head? ≠ some mark) :
    quotedBody mark escapes (cs ++ es) = some (t, n) := by
  induction cs using quotedBody.induct mark escapes generalizing t n with
  | case1 =>
    have := (quotedBody_closes h).1
    grind
  | case2 cs ih =>
    simp [quotedBody_mark] at h hn ⊢
    grind
  | case3 d cs hd =>
    simp [quotedBody_mark, hd] at h ⊢
    exact h
  | case4 =>
    simp [quotedBody_mark, hes] at h hn ⊢
    split at h
    · simp at h
      grind
    · simpa using h
  | case5 c hc hescape d cs ih =>
    obtain ⟨rfl, rfl⟩ := hescape
    simp [quotedBody_escape hc] at h hn ⊢
    grind
  | case6 c hc hescape =>
    obtain ⟨rfl, rfl⟩ := hescape
    exfalso
    cases ds with
    | nil => simp [quotedBody_lone hc] at h
    | cons d ds =>
      simp [quotedBody_escape hc] at h hn
      grind
  | case7 c cs hc hescape ih =>
    simp [quotedBody_plain hc hescape] at h hn ⊢
    grind

/-! ## Bodies with escapes -/

theorem escape?_local {c : Char} {k : Nat} (h : escape? (cs ++ ds) = some (c, k))
    (hk : k < cs.length) : escape? (cs ++ es) = some (c, k) := by
  cases cs with
  | nil => cases hk
  | cons a cs =>
    rw [List.length_cons] at hk
    rw [List.cons_append, escape?.eq_def] at h ⊢
    dsimp only at h ⊢
    split at h
    -- The letters that stand for one character.
    case h_1 | h_2 | h_3 | h_4 | h_5 => exact h
    case h_6 | h_7 =>
      simp only [Option.ite_none_right_eq_some, Option.map_eq_some_iff, Prod.mk.injEq] at h
      obtain ⟨-, d, hd, rfl, rfl⟩ := h
      rw [List.take_append_of_le_length (by omega)] at hd
      rw [if_pos (by rw [List.length_append]; omega), List.take_append_of_le_length (by omega), hd]
      rfl
    case h_8 =>
      have hlength :
          (((cs ++ ds).take 2).takeWhile fun d => (digitValue? 16 d).isSome).length < cs.length := by
        split at h
        · next hempty =>
          cases h
          rw [List.isEmpty_iff.1 hempty, List.length_nil]
          omega
        · obtain ⟨d, -, heq⟩ := Option.map_eq_some_iff.1 h
          cases heq
          omega
      rw [takeWhile_take_local hlength]
      exact h
    case h_9 =>
      split
      · next hdigit =>
        rw [if_pos hdigit] at h
        have hlength :
            (((cs ++ ds).take 2).takeWhile fun d => (digitValue? 8 d).isSome).length < cs.length := by
          obtain ⟨d, -, heq⟩ := Option.map_eq_some_iff.1 h
          cases heq
          omega
        rw [takeWhile_take_local hlength]
        exact h
      · next hdigit => rwa [if_neg hdigit] at h

theorem escapedBody_closes {x : List Char} {t : List Char} {n : Nat} (h : escapedBody x = some (t, n)) :
    0 < n ∧ x[n - 1]? = some '\'' := by
  fun_induction escapedBody x generalizing t n with
  | case1 | case4 | case5 => cases h
  | case2 rest ih =>
    obtain ⟨⟨text, m⟩, hm, heq⟩ := Option.map_eq_some_iff.1 h
    cases heq
    exact closes_cons '\'' (closes_cons '\'' (ih hm))
  | case3 =>
    cases h
    simp
  | case6 rest c k hescape hc ih =>
    obtain ⟨⟨text, m⟩, hm, heq⟩ := Option.map_eq_some_iff.1 h
    cases heq
    obtain ⟨hpos, hmark⟩ := ih hm
    rw [List.getElem?_drop] at hmark
    refine ⟨by omega, ?_⟩
    rw [show m + 1 + k - 1 = k + (m - 1) + 1 by omega, List.getElem?_cons_succ, hmark]
  | case7 c rest _ _ _ ih =>
    obtain ⟨⟨text, m⟩, hm, heq⟩ := Option.map_eq_some_iff.1 h
    cases heq
    exact closes_cons c (ih hm)

theorem escapedBody_local {t : List Char} {n : Nat} (h : escapedBody (cs ++ ds) = some (t, n))
    (hn : n ≤ cs.length) (hes : es.head? ≠ some '\'') : escapedBody (cs ++ es) = some (t, n) := by
  generalize hx : cs ++ ds = x at h
  fun_induction escapedBody x generalizing cs t n with
  | case1 => cases h
  | case2 rest ih =>
    obtain ⟨⟨text, m⟩, hm, heq⟩ := Option.map_eq_some_iff.1 h
    cases heq
    obtain ⟨cs₁, rfl, hx₁⟩ := exists_cons_of_append hx (by omega)
    rw [List.length_cons] at hn
    obtain ⟨cs₂, rfl, hx₂⟩ := exists_cons_of_append hx₁ (by omega)
    rw [List.length_cons] at hn
    simp [escapedBody, ih (by omega) hx₂ hm]
  | case3 tail htail =>
    cases h
    obtain ⟨cs₁, rfl, hx₁⟩ := exists_cons_of_append hx (by omega)
    rw [List.cons_append, escapedBody]
    intro rest hrest
    cases cs₁ with
    | nil => exact hes (congrArg List.head? hrest)
    | cons d cs =>
      obtain ⟨rfl, -⟩ := List.cons.inj hrest
      exact htail _ hx₁.symm
  | case4 => cases h
  | case5 => cases h
  | case6 rest c k hescape hc ih =>
    obtain ⟨⟨text, m⟩, hm, heq⟩ := Option.map_eq_some_iff.1 h
    cases heq
    obtain ⟨cs₁, rfl, rfl⟩ := exists_cons_of_append hx (by omega)
    rw [List.length_cons] at hn
    have hpos := (escapedBody_closes hm).1
    have hk : k < cs₁.length := by omega
    have hdrop : escapedBody (cs₁.drop k ++ es) = some (text, m) := by
      refine ih ?_ (List.drop_append_of_le_length (Nat.le_of_lt hk)).symm hm
      rw [List.length_drop]
      omega
    simp [escapedBody, escape?_local hescape hk, hc, List.drop_append_of_le_length (Nat.le_of_lt hk),
      hdrop]
  | case7 c rest h1 h2 h3 ih =>
    obtain ⟨⟨text, m⟩, hm, heq⟩ := Option.map_eq_some_iff.1 h
    cases heq
    obtain ⟨cs₁, rfl, hx₁⟩ := exists_cons_of_append hx (by omega)
    rw [List.length_cons] at hn
    rw [List.cons_append, escapedBody, ih (Nat.le_of_succ_le_succ hn) hx₁ hm]
    · rfl
    · exact fun _ hc _ => h2 hc
    · exact h2
    · exact h3

theorem codePointAt_local {done k value : Nat} {c : Char} {n : Nat}
    (h : codePointAt done k value (cs ++ ds) = .ok (c, n))
    (hn : k ≤ cs.length) : codePointAt done k value (cs ++ es) = .ok (c, n) := by
  induction k generalizing done value cs with
  | zero => exact h
  | succ k ih =>
    obtain _ | ⟨d, cs⟩ := cs
    · simp at hn
    · simp [codePointAt] at h ⊢
      split at h
      · exact ih h (by simpa using hn)
      · cases h

theorem bind_eq_ok {ε α β : Type} {x : Except ε α} {f : α → Except ε β} {b : β} (h : (x >>= f) = .ok b) :
    ∃ a, x = .ok a ∧ f a = .ok b := by
  cases x with
  | error e => cases h
  | ok a => exact ⟨a, rfl, h⟩

theorem unicodeBody_closes {done : Nat} {x t : List Char} {n : Nat}
    (h : unicodeBody done x = .ok (t, n)) :
    done < n ∧ x[n - done - 1]? = some '\'' := by
  fun_induction unicodeBody done x generalizing t n with
  | case1 => cases h
  | case3 => cases h; simp
  | case2 done rest ih | case4 done rest ih | case7 done c rest _ _ _ _ _ ih =>
    obtain ⟨⟨text, m⟩, hm, heq⟩ := bind_eq_ok h
    cases heq
    grind
  | case5 done rest ih =>
    obtain ⟨⟨c, _⟩, -, hrest⟩ := bind_eq_ok h
    obtain ⟨⟨text, m⟩, hm, heq⟩ := bind_eq_ok hrest
    cases heq
    obtain ⟨hlt, hmark⟩ := ih hm
    rw [List.getElem?_drop] at hmark
    refine ⟨by omega, ?_⟩
    rwa [show n - done - 1 = 6 + (n - (done + 8) - 1) + 1 + 1 by omega, List.getElem?_cons_succ,
      List.getElem?_cons_succ]
  | case6 done rest _ _ ih =>
    obtain ⟨⟨c, _⟩, -, hrest⟩ := bind_eq_ok h
    obtain ⟨⟨text, m⟩, hm, heq⟩ := bind_eq_ok hrest
    cases heq
    obtain ⟨hlt, hmark⟩ := ih hm
    rw [List.getElem?_drop] at hmark
    refine ⟨by omega, ?_⟩
    rwa [show n - done - 1 = 4 + (n - (done + 5) - 1) + 1 by omega, List.getElem?_cons_succ]

theorem unicodeBody_local {done : Nat} {t : List Char} {n : Nat} (h : unicodeBody done (cs ++ ds) = .ok (t, n))
    (hn : n ≤ done + cs.length) (hes : es.head? ≠ some '\'') : unicodeBody done (cs ++ es) = .ok (t, n) := by
  have hlong := (unicodeBody_closes h).1
  generalize hx : cs ++ ds = x at h
  fun_induction unicodeBody done x generalizing cs t n with
  | case1 => cases h
  | case3 done tail htail =>
    cases h
    obtain ⟨cs₁, rfl, hx₁⟩ := exists_cons_of_append hx (by omega)
    rw [List.cons_append, unicodeBody]
    intro rest hrest
    cases cs₁ with
    | nil => exact hes (congrArg List.head? hrest)
    | cons d cs =>
      obtain ⟨rfl, -⟩ := List.cons.inj hrest
      exact htail _ hx₁.symm
  | case2 done rest ih | case4 done rest ih =>
    obtain ⟨⟨text, m⟩, hm, heq⟩ := bind_eq_ok h
    cases heq
    have hlt := (unicodeBody_closes hm).1
    obtain ⟨cs₁, rfl, hx₁⟩ := exists_cons_of_append hx (by omega)
    rw [List.length_cons] at hn
    obtain ⟨cs₂, rfl, hx₂⟩ := exists_cons_of_append hx₁ (by omega)
    rw [List.length_cons] at hn
    simp only [List.cons_append, unicodeBody, ih (by omega) hlt hx₂ hm]
    rfl
  | case5 done rest ih =>
    obtain ⟨⟨c, k⟩, hc, hrest⟩ := bind_eq_ok h
    obtain ⟨⟨text, m⟩, hm, heq⟩ := bind_eq_ok hrest
    cases heq
    have hlt := (unicodeBody_closes hm).1
    obtain ⟨cs₁, rfl, hx₁⟩ := exists_cons_of_append hx (by omega)
    rw [List.length_cons] at hn
    obtain ⟨cs₂, rfl, rfl⟩ := exists_cons_of_append hx₁ (by omega)
    rw [List.length_cons] at hn
    have hlength : 6 ≤ cs₂.length := by omega
    have hdrop : unicodeBody (done + 8) (cs₂.drop 6 ++ es) = .ok (text, n) :=
      ih (by rw [List.length_drop]; omega) hlt (List.drop_append_of_le_length hlength).symm hm
    simp only [List.cons_append, unicodeBody, codePointAt_local hc hlength,
      List.drop_append_of_le_length hlength]
    show (unicodeBody (done + 8) (cs₂.drop 6 ++ es) >>= _) = _
    rw [hdrop]
    rfl
  | case6 done rest h1 h2 ih =>
    obtain ⟨⟨c, k⟩, hc, hrest⟩ := bind_eq_ok h
    obtain ⟨⟨text, m⟩, hm, heq⟩ := bind_eq_ok hrest
    cases heq
    have hlt := (unicodeBody_closes hm).1
    obtain ⟨cs₁, rfl, rfl⟩ := exists_cons_of_append hx (by omega)
    rw [List.length_cons] at hn
    have hlength : 4 ≤ cs₁.length := by omega
    have hdrop : unicodeBody (done + 5) (cs₁.drop 4 ++ es) = .ok (text, n) :=
      ih (by rw [List.length_drop]; omega) hlt (List.drop_append_of_le_length hlength).symm hm
    obtain _ | ⟨d, cs₂⟩ := cs₁
    · simp at hlength
    rw [List.cons_append, unicodeBody, codePointAt_local hc hlength, List.drop_append_of_le_length hlength]
    · show (unicodeBody (done + 5) ((d :: cs₂).drop 4 ++ es) >>= _) = _
      rw [hdrop]
      rfl
    · intro rest' hrest'
      exact h1 _ (congrArg (· :: _) (List.cons.inj hrest').1)
    · intro rest' hrest'
      exact h2 _ (congrArg (· :: _) (List.cons.inj hrest').1)
  | case7 done c rest h1 h2 h3 h4 h5 ih =>
    obtain ⟨⟨text, m⟩, hm, heq⟩ := bind_eq_ok h
    cases heq
    have hlt := (unicodeBody_closes hm).1
    obtain ⟨cs₁, rfl, hx₁⟩ := exists_cons_of_append hx (by omega)
    rw [List.length_cons] at hn
    rw [List.cons_append, unicodeBody, ih (by omega) hlt hx₁ hm]
    · rfl
    · exact fun _ hc _ => h2 hc
    · exact h2
    · exact fun _ hc _ => h5 hc
    · exact fun _ hc _ => h5 hc
    · exact h5

/-! ## Dollar quoting -/

theorem untaggedBody_closes {x : List Char} {t : List Char} {n : Nat} (h : untaggedBody x = some (t, n)) :
    0 < n ∧ x[n - 1]? = some '$' := by
  fun_induction untaggedBody x generalizing t n with
  | case1 => cases h
  | case2 =>
    cases h
    simp
  | case3 c cs _ ih =>
    obtain ⟨⟨text, m⟩, hm, heq⟩ := Option.map_eq_some_iff.1 h
    cases heq
    exact closes_cons c (ih hm)

theorem untaggedBody_local {t : List Char} {n : Nat} (h : untaggedBody (cs ++ ds) = some (t, n))
    (hn : n ≤ cs.length)  : untaggedBody (cs ++ es) = some (t, n) := by
  generalize hx : cs ++ ds = x at h
  fun_induction untaggedBody x generalizing cs t n with
  | case1 => cases h
  | case2 tail =>
    cases h
    obtain ⟨cs₁, rfl, hx₁⟩ := exists_cons_of_append hx (by omega)
    rw [List.length_cons] at hn
    obtain ⟨cs₂, rfl, -⟩ := exists_cons_of_append hx₁ (by omega)
    rfl
  | case3 c rest hc ih =>
    obtain ⟨⟨text, m⟩, hm, heq⟩ := Option.map_eq_some_iff.1 h
    cases heq
    obtain ⟨cs₁, rfl, hx₁⟩ := exists_cons_of_append hx (by omega)
    rw [List.length_cons] at hn
    rw [List.cons_append, untaggedBody, ih (by omega) hx₁ hm]
    · rfl
    · intro tail hdollar htail
      cases cs₁ with
      | nil => exact absurd ((untaggedBody_closes hm).1) (by simpa using hn)
      | cons d cs₂ =>
        obtain ⟨rfl, -⟩ := List.cons.inj htail
        exact hc _ hdollar hx₁.symm

theorem findPiece_nil (piece : List Char) :
    Text.findPiece piece [] = if piece.isEmpty then some 0 else none := rfl

theorem findPiece_cons (piece : List Char) (c : Char) (cs : List Char) :
    Text.findPiece piece (c :: cs) =
      if piece.isPrefixOf (c :: cs) then some 0 else (Text.findPiece piece cs).map (· + 1) := rfl

theorem findPiece_append {piece x : List Char} {n : Nat} (h : Text.findPiece piece x = some n) :
    ∃ tail, x.drop n = piece ++ tail := by
  induction x generalizing n with
  | nil =>
    rw [findPiece_nil] at h
    split at h
    · next hempty =>
      cases h
      exact ⟨[], by simp [List.isEmpty_iff.1 hempty]⟩
    · cases h
  | cons c cs ih =>
    rw [findPiece_cons] at h
    split at h
    · next hpre =>
      cases h
      obtain ⟨tail, htail⟩ := List.isPrefixOf_iff_prefix.1 hpre
      exact ⟨tail, htail.symm⟩
    · obtain ⟨m, hm, rfl⟩ := Option.map_eq_some_iff.1 h
      exact ih hm

theorem findPiece_local {piece cs ds es : List Char} {n : Nat} (h : Text.findPiece piece (cs ++ ds) = some n)
    (hn : n + piece.length ≤ cs.length) : Text.findPiece piece (cs ++ es) = some n := by
  induction cs generalizing n with
  | nil =>
    obtain rfl : piece = [] := List.eq_nil_of_length_eq_zero (by rw [List.length_nil] at hn; omega)
    obtain rfl : n = 0 := by simpa using hn
    cases es <;> simp [findPiece_nil, findPiece_cons]
  | cons c cs ih =>
    have hinside (xs : List Char) (hle : piece.length ≤ (c :: cs).length) :
        piece.isPrefixOf (c :: cs ++ xs) = piece.isPrefixOf (c :: cs) := by
      rw [Bool.eq_iff_iff, List.isPrefixOf_iff_prefix, List.isPrefixOf_iff_prefix]
      exact ⟨fun hpre => List.prefix_of_prefix_length_le hpre (List.prefix_append _ _) hle,
        fun hpre => hpre.trans (List.prefix_append _ _)⟩
    simp only [List.cons_append, findPiece_cons] at h ⊢
    rw [← List.cons_append, hinside _ (by omega)] at h ⊢
    split at h
    · next hpre => rwa [if_pos hpre]
    · next hpre =>
      obtain ⟨m, hm, rfl⟩ := Option.map_eq_some_iff.1 h
      rw [if_neg hpre, ih hm (by rw [List.length_cons] at hn; omega)]
      rfl

/-- A character of the tag between two dollar signs. -/
def isTagPart (c : Char) : Bool :=
  isAlphabetic c || isNumeric c || c = '_'

theorem stop_not_tag : ∀ s ∈ stops, isTagPart s = false := by
  intro s hs
  have h_ : s ≠ '_' := by
    rintro rfl
    exact absurd hs (by decide)
  simp [isTagPart, stop_not_alphabetic s hs, stop_not_numeric s hs, h_]

/-- The text of a tagged quotation or of a parameter, from its tag on. -/
def taggedStep (cs : List Char) : Step :=
  let tag := cs.takeWhile isTagPart
  match cs.drop tag.length with
  | '$' :: rest =>
    match Text.findPiece ('$' :: tag ++ ['$']) rest with
    | some n =>
      let name := if tag.isEmpty then none else some (String.ofList tag)
      .ok (.dollar name (String.ofList (rest.take n)), tag.length + 1 + n + (tag.length + 2))
    | none => .error ("Unterminated dollar-quoted, expected $", cs.length + 1)
  | _ => .ok (.placeholder (String.ofList ('$' :: tag)), tag.length)

theorem dollarStep_of_ne (h : ∀ rest, cs = '$' :: rest → False) : dollarStep cs = taggedStep cs := by
  rw [dollarStep]
  · rfl
  · exact h

theorem taggedStep_closes {cs : List Char} {tok : Token} {k : Nat} (h : taggedStep cs = .ok (tok, k)) :
    (∃ tag text, tok = .dollar tag text) ∧ cs[k - 1]? = some '$' ∨ k = (cs.takeWhile isTagPart).length := by
  unfold taggedStep at h
  dsimp only at h
  split at h
  · next rest hrest =>
    split at h
    · next n hn =>
      cases h
      obtain ⟨tail, htail⟩ := findPiece_append hn
      refine .inl ⟨⟨_, _, rfl⟩, ?_⟩
      generalize (cs.takeWhile isTagPart) = tag at *
      have hlast : rest[n + tag.length + 1]? = some '$' := by
        rw [show n + tag.length + 1 = n + (tag.length + 1) by omega, ← List.getElem?_drop, htail]
        simp
      rw [show tag.length + 1 + n + (tag.length + 2) - 1 = tag.length + (n + tag.length + 1 + 1) by omega,
        ← List.getElem?_drop, hrest, List.getElem?_cons_succ, hlast]
    · cases h
  · cases h
    exact .inr rfl

theorem taggedStep_local {tok : Token} {k : Nat} (h : taggedStep (cs ++ ds) = .ok (tok, k))
    (hk : k ≤ cs.length) (hes : Follows ds es) : taggedStep (cs ++ es) = .ok (tok, k) := by
  unfold taggedStep at h ⊢
  dsimp only at h ⊢
  have htag : ((cs ++ ds).takeWhile isTagPart).length ≤ cs.length := by
    split at h
    · split at h
      · cases h
        omega
      · cases h
    · cases h
      exact hk
  rw [takeWhile_local stop_not_tag hes htag]
  rw [takeWhile_append_of_le htag] at h htag
  generalize (cs.takeWhile isTagPart) = tag at *
  rw [List.drop_append_of_le_length htag] at h ⊢
  generalize hrest : cs.drop tag.length = rest at *
  have hlength : rest.length + tag.length = cs.length := by
    rw [← hrest, List.length_drop]
    omega
  split at h
  · next inside hinside =>
    cases hfind : Text.findPiece ('$' :: tag ++ ['$']) inside with
    | none => rw [hfind] at h; cases h
    | some n =>
      rw [hfind] at h
      cases h
      obtain ⟨rest, rfl, rfl⟩ := exists_cons_of_append hinside (by omega)
      rw [List.length_cons] at hlength
      have hlocal : Text.findPiece ('$' :: tag ++ ['$']) (rest ++ es) = some n :=
        findPiece_local hfind (by simp; omega)
      simp only [List.cons_append] at hlocal ⊢
      rw [hlocal]
      simp only [List.take_append_of_le_length (show n ≤ rest.length by omega)]
  · next hnone =>
    cases h
    split
    · next inside hinside =>
      obtain _ | ⟨d, rest⟩ := rest
      · exact absurd hinside (hes.breaks.ne_cons (by decide) _)
      · obtain ⟨rfl, -⟩ := List.cons.inj hinside
        exact absurd rfl (hnone (rest ++ ds))
    · rfl

theorem dollarStep_local {tok : Token} {k : Nat} (h : dollarStep (cs ++ ds) = .ok (tok, k))
    (hk : k ≤ cs.length) (hes : Follows ds es) : dollarStep (cs ++ es) = .ok (tok, k) := by
  by_cases hdollar : ∃ rest, cs ++ ds = '$' :: rest
  · obtain ⟨rest, hrest⟩ := hdollar
    rw [hrest, dollarStep] at h
    cases hbody : untaggedBody rest with
    | none => rw [hbody] at h; cases h
    | some body =>
      rw [hbody] at h
      cases h
      obtain ⟨cs, rfl, rfl⟩ := exists_cons_of_append hrest (by omega)
      rw [List.length_cons] at hk
      rw [List.cons_append, dollarStep, untaggedBody_local hbody (by omega)]
  · rw [dollarStep_of_ne fun rest hrest => hdollar ⟨rest, hrest⟩] at h
    rw [dollarStep_of_ne]
    · exact taggedStep_local h hk hes
    · intro rest hrest
      obtain _ | ⟨d, cs⟩ := cs
      · exact hes.breaks.ne_cons (by decide) _ hrest
      · obtain ⟨rfl, -⟩ := List.cons.inj hrest
        exact hdollar ⟨_, rfl⟩

/-! ## Comments -/

theorem blockComment_closes {depth : Nat} {x : List Char} {n : Nat} (h : blockComment depth x = some n) :
    0 < n ∧ x[n - 1]? = some '/' := by
  fun_induction blockComment depth x generalizing n with
  | case1 depth cs ih =>
    obtain ⟨m, hm, rfl⟩ := Option.map_eq_some_iff.1 h
    exact closes_cons '/' (closes_cons '*' (ih hm))
  | case2 =>
    cases h
    simp
  | case3 depth cs hdepth ih =>
    obtain ⟨m, hm, rfl⟩ := Option.map_eq_some_iff.1 h
    exact closes_cons '*' (closes_cons '/' (ih hm))
  | case4 depth c cs _ _ ih =>
    obtain ⟨m, hm, rfl⟩ := Option.map_eq_some_iff.1 h
    exact closes_cons c (ih hm)
  | case5 => cases h

theorem blockComment_local {depth : Nat} {n : Nat} (h : blockComment depth (cs ++ ds) = some n)
    (hn : n ≤ cs.length)  : blockComment depth (cs ++ es) = some n := by
  generalize hx : cs ++ ds = x at h
  fun_induction blockComment depth x generalizing cs n with
  | case1 depth rest ih =>
    obtain ⟨m, hm, rfl⟩ := Option.map_eq_some_iff.1 h
    obtain ⟨cs₁, rfl, hx₁⟩ := exists_cons_of_append hx (by omega)
    rw [List.length_cons] at hn
    obtain ⟨cs₂, rfl, hx₂⟩ := exists_cons_of_append hx₁ (by omega)
    rw [List.length_cons] at hn
    simp only [List.cons_append, blockComment, ih (by omega) hx₂ hm]
    rfl
  | case2 depth rest hdepth =>
    cases h
    obtain ⟨cs₁, rfl, hx₁⟩ := exists_cons_of_append hx (by omega)
    rw [List.length_cons] at hn
    obtain ⟨cs₂, rfl, hx₂⟩ := exists_cons_of_append hx₁ (by omega)
    simp only [List.cons_append, blockComment, if_pos hdepth]
  | case3 depth rest hdepth ih =>
    obtain ⟨m, hm, rfl⟩ := Option.map_eq_some_iff.1 h
    obtain ⟨cs₁, rfl, hx₁⟩ := exists_cons_of_append hx (by omega)
    rw [List.length_cons] at hn
    obtain ⟨cs₂, rfl, hx₂⟩ := exists_cons_of_append hx₁ (by omega)
    rw [List.length_cons] at hn
    simp only [List.cons_append, blockComment, if_neg hdepth, ih (by omega) hx₂ hm]
    rfl
  | case4 depth c rest h1 h2 ih =>
    obtain ⟨m, hm, rfl⟩ := Option.map_eq_some_iff.1 h
    obtain ⟨cs₁, rfl, hx₁⟩ := exists_cons_of_append hx (by omega)
    rw [List.length_cons] at hn
    have hpos := (blockComment_closes hm).1
    obtain _ | ⟨d, cs₂⟩ := cs₁
    · exact absurd hn (by rw [List.length_nil]; omega)
    rw [List.cons_append, blockComment, ih (by omega) hx₁ hm]
    · rfl
    · intro tail hc htail
      obtain ⟨rfl, -⟩ := List.cons.inj htail
      exact h1 _ hc hx₁.symm
    · intro tail hc htail
      obtain ⟨rfl, -⟩ := List.cons.inj htail
      exact h2 _ hc hx₁.symm
  | case5 => cases h

theorem lineComment_cons (c : Char) (cs : List Char) :
    lineComment (c :: cs) = if c = '\n' ∨ c = '\r' then 1 else lineComment cs + 1 := rfl

theorem lineComment_local (hclosed : ∃ c ∈ cs, c = '\n' ∨ c = '\r') (ds es : List Char) :
    lineComment (cs ++ es) = lineComment (cs ++ ds) := by
  induction cs with
  | nil =>
    obtain ⟨c, hc, -⟩ := hclosed
    cases hc
  | cons c cs ih =>
    simp only [List.cons_append, lineComment_cons]
    split
    · rfl
    · next hc =>
      have hlater : ∃ c ∈ cs, c = '\n' ∨ c = '\r' := by
        obtain ⟨d, hd, hend⟩ := hclosed
        rcases List.mem_cons.1 hd with rfl | hd
        · exact absurd hend hc
        · exact ⟨d, hd, hend⟩
      rw [ih hlater]

/-- A comment up to the end of the line takes all of a text that has no end of a line. -/
theorem lineComment_eq_length (h : ∀ c ∈ cs, ¬ (c = '\n' ∨ c = '\r')) (ds : List Char) :
    lineComment (cs ++ ds) = cs.length + lineComment ds := by
  induction cs with
  | nil => rw [List.nil_append, List.length_nil, Nat.zero_add]
  | cons c cs ih =>
    obtain ⟨hc, hcs⟩ := List.forall_mem_cons.1 h
    rw [List.cons_append, lineComment_cons, if_neg hc, ih hcs, List.length_cons]
    omega

theorem eq_nil_of_lineComment (h : lineComment cs = 0) : cs = [] := by
  cases cs with
  | nil => rfl
  | cons c cs =>
    rw [lineComment_cons] at h
    split at h <;> omega

theorem length_lineComment_le (cs : List Char) : lineComment cs ≤ cs.length := by
  induction cs with
  | nil => exact Nat.le_refl _
  | cons c cs ih =>
    rw [lineComment_cons, List.length_cons]
    split <;> omega

end Lexer
end Sql
end Routine
