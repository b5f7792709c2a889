import Mathlib.Data.List.DropRight
import Routine.Proofs.JsonText

/-!
# Passing over a value

Members that nobody asks for are passed over, and they may hold any value, with floating point numbers and of
any depth. Passing over the text of a value always ends right behind it (`Cursor.skipValue_compactChars`).

The text of a floating point number is the one part of this that does not come from reading back: it is put
together from decimal digits in several styles, and it has to be a number of JSON in all of them
(`isNumber_floatText`). A zero may not lead the digits of a number, so this needs that the shortest digits of
a number that is not zero do not start with one (`Decimal.shortest_digits`).

Passing over is given as much to do with as there are characters, and every part of a value takes at least
one of them. The induction on the value carries this bound.
-/

namespace Routine

/-! ## Decimals -/

namespace Decimal

/-- Digits of a number that is not zero: they do not start with a zero. -/
structure IsLeading (ds : List Char) : Prop where
  digits : ∀ d ∈ ds, d.isDigit = true
  head : ∃ d rest, ds = d :: rest ∧ d ≠ '0'

theorem isLeading_toDigits {n : Nat} (h : 0 < n) : IsLeading (Nat.toDigits 10 n) := by
  obtain ⟨d, ds, heq, hd⟩ := Json.Numeral.head_toDigits h
  exact ⟨fun _ hmem => Nat.isDigit_of_mem_toDigits (by decide) (by decide) hmem, d, ds, heq, hd⟩

/-- Zeros at the end are dropped, and the first digit is not one of them. -/
theorem isLeading_significant {n : Nat} (h : 0 < n) : IsLeading (significant n) := by
  obtain ⟨hdigits, d, ds, heq, hd⟩ := isLeading_toDigits h
  have hinit : (Nat.toDigits 10 n).rdropWhile (· = '0') <+: Nat.toDigits 10 n := List.rdropWhile_prefix _ _
  have hne : (Nat.toDigits 10 n).rdropWhile (· = '0') ≠ [] := by
    rw [ne_eq, List.rdropWhile_eq_nil_iff, heq]
    intro hall
    exact hd (of_decide_eq_true (hall d List.mem_cons_self))
  have hsignificant : significant n = (Nat.toDigits 10 n).rdropWhile (· = '0') := by
    show (if ((Nat.toDigits 10 n).rdropWhile (· = '0')).isEmpty then ['0'] else _) = _
    rw [if_neg (by rwa [List.isEmpty_iff])]
    rfl
  rw [hsignificant]
  refine ⟨fun c hc => hdigits c (hinit.subset hc), ?_⟩
  obtain ⟨e, es, hes⟩ := List.exists_cons_of_ne_nil hne
  rw [hes, heq] at hinit
  obtain ⟨rfl, -⟩ := List.cons_prefix_cons.1 hinit
  exact ⟨e, es, hes, hd⟩

/-- What is left when a list is gone through for the best of it is in the list. -/
theorem foldl_best_mem {better : Nat → Nat → Prop} [DecidableRel better] {ns : List Nat}
    {best : Option Nat} {n : Nat}
    (h : ns.foldl (fun best n =>
      match best with
      | some m => if better n m then some n else some m
      | none => some n) best = some n) : n ∈ ns ∨ best = some n := by
  induction ns generalizing best with
  | nil => exact .inr h
  | cons m ns ih =>
    rcases ih h with hmem | heq
    · exact .inl (List.mem_cons_of_mem m hmem)
    · cases best with
      | none =>
        obtain rfl := Option.some.inj heq
        exact .inl List.mem_cons_self
      | some m' =>
        dsimp only at heq
        split at heq
        · obtain rfl := Option.some.inj heq
          exact .inl List.mem_cons_self
        · exact .inr heq

/-- The shortest digits are those of a number that is not zero. -/
theorem shortest_digits {b : Binary} (h : b.mantissa ≠ 0) :
    ∃ n, 0 < n ∧ (shortest b).digits = significant n := by
  have hmantissa : 0 < b.mantissa := Nat.pos_of_ne_zero h
  unfold shortest
  split
  next up den hup =>
  have hup : 0 < up := by
    split at hup
    · rw [← (Prod.mk.inj hup).1]
      exact Nat.pow_pos (by decide)
    · rw [← (Prod.mk.inj hup).1]
      decide
  extract_lets value low high closed top inside onGrid
  have hlow : 0 < low := by
    refine Nat.mul_pos ?_ hup
    split <;> omega
  cases hfound : (List.range 17).findSome? onGrid with
  | none => exact ⟨b.mantissa, hmantissa, rfl⟩
  | some d =>
    obtain ⟨k, -, hk⟩ := List.exists_of_findSome?_eq_some hfound
    simp only [onGrid] at hk
    obtain ⟨n, hbest, rfl⟩ := Option.map_eq_some_iff.1 hk
    refine ⟨n, ?_, rfl⟩
    rcases foldl_best_mem hbest with hmem | hnone
    · -- Zero is not among the candidates, since it lies below the interval.
      have hinside := (List.mem_filter.1 hmem).2
      refine Nat.pos_of_ne_zero ?_
      rintro rfl
      have hscale : 0 < low * (if 0 ≤ top - (k : Int) then (Nat.pow 10 (top - (k : Int)).toNat * den, 1)
          else (den, Nat.pow 10 (-(top - (k : Int))).toNat)).2 := by
        refine Nat.mul_pos hlow ?_
        split
        · exact Nat.one_pos
        · exact Nat.pow_pos (by decide)
      simp only [inside, Nat.zero_mul] at hinside
      split at hinside
      · rw [Bool.and_eq_true, decide_eq_true_eq] at hinside
        omega
      · rw [Bool.and_eq_true, decide_eq_true_eq] at hinside
        omega
    · cases hnone

end Decimal
namespace Json

/-! ## Numbers in text -/

/-- No digit is next. -/
def NoDigit (text : List Char) : Prop := ∀ c ∈ text.head?, c.isDigit = false

/-- The digits before the point. -/
inductive IsWhole : List Char → Prop
  | zero : IsWhole ['0']
  | leading {ds : List Char} (h : Decimal.IsLeading ds) : IsWhole ds

/-- At least one digit, and nothing else. -/
structure IsDigits (ds : List Char) : Prop where
  some : ds ≠ []
  digits : ∀ d ∈ ds, d.isDigit = true

/-- The point and the digits after it, or nothing. -/
inductive IsFraction : List Char → Prop
  | none : IsFraction []
  | point {ds : List Char} (h : IsDigits ds) : IsFraction ('.' :: ds)

/-- The mark of an exponent, its sign and its digits, or nothing. -/
inductive IsExponent : List Char → Prop
  | none : IsExponent []
  | plain {ds : List Char} (h : IsDigits ds) : IsExponent ('e' :: ds)
  | negative {ds : List Char} (h : IsDigits ds) : IsExponent ('e' :: '-' :: ds)

/-- A number without its sign. -/
inductive IsUnsigned : List Char → Prop
  | mk {whole fraction exponent : List Char} (hwhole : IsWhole whole) (hfraction : IsFraction fraction)
      (hexponent : IsExponent exponent) : IsUnsigned (whole ++ (fraction ++ exponent))

/-- A number. -/
inductive IsNumber : List Char → Prop
  | plain {cs : List Char} (h : IsUnsigned cs) : IsNumber cs
  | negative {cs : List Char} (h : IsUnsigned cs) : IsNumber ('-' :: cs)

theorem Stops.noDigit {rest : List Char} (h : Stops rest) : NoDigit rest := by
  intro c hc
  obtain ⟨tail, rfl⟩ : ∃ tail, rest = c :: tail := by
    cases rest with
    | nil => cases hc
    | cons d tail => exact ⟨tail, by rw [Option.mem_some_iff.1 hc]⟩
  exact h.not_isDigit

theorem noDigit_cons {c : Char} (h : c.isDigit = false) (rest : List Char) : NoDigit (c :: rest) := by
  intro d hd
  rwa [← Option.mem_some_iff.1 hd]

theorem IsExponent.noDigit {es rest : List Char} (h : IsExponent es) (hrest : Stops rest) :
    NoDigit (es ++ rest) := by
  cases h with
  | none => exact hrest.noDigit
  | plain _ => exact noDigit_cons rfl _
  | negative _ => exact noDigit_cons rfl _

theorem IsFraction.noDigit {fs rest : List Char} (h : IsFraction fs) (hrest : NoDigit rest) :
    NoDigit (fs ++ rest) := by
  cases h with
  | none => exact hrest
  | point _ => exact noDigit_cons rfl _

theorem IsWhole.head {ds : List Char} (h : IsWhole ds) : ∃ d tail, ds = d :: tail ∧ d.isDigit = true := by
  cases h with
  | zero => exact ⟨'0', [], rfl, rfl⟩
  | leading h =>
    obtain ⟨d, tail, rfl, -⟩ := h.head
    exact ⟨d, tail, rfl, h.digits d List.mem_cons_self⟩

theorem IsUnsigned.head {cs : List Char} (h : IsUnsigned cs) :
    ∃ d tail, cs = d :: tail ∧ d.isDigit = true := by
  obtain ⟨hwhole, -, -⟩ := h
  obtain ⟨d, tail, rfl, hd⟩ := hwhole.head
  exact ⟨d, _, rfl, hd⟩

theorem IsNumber.head {cs : List Char} (h : IsNumber cs) :
    ∃ x tail, cs = x :: tail ∧ (x = '-' ∨ x.isDigit = true) := by
  cases h with
  | plain h =>
    obtain ⟨d, tail, heq, hd⟩ := h.head
    exact ⟨d, tail, heq, .inr hd⟩
  | negative h => exact ⟨'-', _, rfl, .inl rfl⟩

namespace Cursor

theorem digits_append {ds rest : List Char} (hds : ∀ d ∈ ds, d.isDigit = true) (hrest : NoDigit rest)
    (i : Nat) : digits ⟨ds ++ rest, i⟩ = (ds, ⟨rest, i + ds.length⟩) := by
  have htake : (ds ++ rest).takeWhile Char.isDigit = ds := by
    rw [List.takeWhile_append_of_pos hds]
    cases rest with
    | nil => simp
    | cons c rest => simp [hrest c rfl]
  simp only [digits, htake, List.drop_left]

theorem wholeDigits_append {ds rest : List Char} (h : IsWhole ds) (hrest : NoDigit rest) (i : Nat)
    (atEnd : Malformed) : ∃ j, wholeDigits ⟨ds ++ rest, i⟩ atEnd = .ok (ds, ⟨rest, j⟩) := by
  cases h with
  | zero =>
    refine ⟨i + '0'.utf8Size, ?_⟩
    cases rest with
    | nil => rfl
    | cons c rest => simp [wholeDigits, hrest c rfl]
  | leading h =>
    obtain ⟨d, tail, rfl, hd⟩ := h.head
    have hdigits := digits_append h.digits hrest i
    refine ⟨i + (d :: tail).length, ?_⟩
    rw [List.cons_append] at hdigits ⊢
    rw [wholeDigits.eq_def]
    split
    · next hnil => cases hnil
    · next hcons => exact absurd (List.cons.inj hcons).1 hd
    · next hcons =>
      obtain ⟨rfl, rfl⟩ := List.cons.inj hcons
      rw [if_pos (h.digits d List.mem_cons_self), hdigits]

theorem exponentDigits_append {es rest : List Char} (h : IsExponent es) (hrest : Stops rest) (i : Nat)
    (atEnd : Malformed) : ∃ e j, exponentDigits ⟨es ++ rest, i⟩ atEnd = .ok (e, ⟨rest, j⟩) := by
  cases h with
  | none => exact ⟨none, i, exponentDigits_of_stops hrest i atEnd⟩
  | @plain ds h =>
    obtain ⟨d, tail, rfl⟩ := List.exists_cons_of_ne_nil h.some
    have hd : d.isDigit = true := h.digits d List.mem_cons_self
    have hdigits := digits_append h.digits hrest.noDigit (i + 'e'.utf8Size)
    refine ⟨some (false, d :: tail), i + 'e'.utf8Size + (d :: tail).length, ?_⟩
    rw [List.cons_append] at hdigits
    have hplus : d ≠ '+' := by
      rintro rfl
      cases hd
    have hminus : d ≠ '-' := by
      rintro rfl
      cases hd
    simp [exponentDigits, hplus, hminus, hd, hdigits]
  | @negative ds h =>
    obtain ⟨d, tail, rfl⟩ := List.exists_cons_of_ne_nil h.some
    have hd : d.isDigit = true := h.digits d List.mem_cons_self
    have hdigits := digits_append h.digits hrest.noDigit (i + 'e'.utf8Size + '-'.utf8Size)
    refine ⟨some (true, d :: tail), i + 'e'.utf8Size + '-'.utf8Size + (d :: tail).length, ?_⟩
    rw [List.cons_append] at hdigits
    simp only [exponentDigits, List.cons_append, eat_cons, true_or, if_true, hd, hdigits]

/-- The next character is neither a digit nor a point. -/
theorem fractionDigits_append {fs rest : List Char} (h : IsFraction fs) (hrest : NoDigit rest)
    (hpoint : rest.head? ≠ some '.') (i : Nat) (atEnd : Malformed) :
    ∃ f j, fractionDigits ⟨fs ++ rest, i⟩ atEnd = .ok (f, ⟨rest, j⟩) := by
  cases h with
  | none =>
    refine ⟨none, i, ?_⟩
    rw [List.nil_append, fractionDigits.eq_def]
    split
    · next heq => exact absurd (congrArg List.head? heq) hpoint
    · rfl
  | @point ds h =>
    have hdigits := digits_append h.digits hrest (i + '.'.utf8Size)
    refine ⟨some ds, i + '.'.utf8Size + ds.length, ?_⟩
    simp only [fractionDigits, List.cons_append, eat_cons, hdigits]
    rw [if_neg (by simpa using h.some)]

/-- The three parts of a number are scanned one after the other, up to its end. -/
theorem parts_append {cs rest : List Char} (h : IsUnsigned cs) (hrest : Stops rest) (i : Nat)
    (atEnd : Malformed) :
    ∃ whole fraction exponent afterWhole afterFraction j,
      wholeDigits ⟨cs ++ rest, i⟩ atEnd = .ok (whole, afterWhole) ∧
      afterWhole.fractionDigits atEnd = .ok (fraction, afterFraction) ∧
      afterFraction.exponentDigits atEnd = .ok (exponent, ⟨rest, j⟩) := by
  obtain @⟨whole, fraction, exponent, hwhole, hfraction, hexponent⟩ := h
  have hpoint : (exponent ++ rest).head? ≠ some '.' := by
    cases hexponent with
    | none =>
      cases rest with
      | nil => simp
      | cons c rest => rcases hrest with rfl | rfl | rfl <;> simp
    | plain _ => simp
    | negative _ => simp
  have hnodigit := hexponent.noDigit hrest
  obtain ⟨j, hj⟩ := wholeDigits_append hwhole (hfraction.noDigit hnodigit) i atEnd
  obtain ⟨f, k, hk⟩ := fractionDigits_append hfraction hnodigit hpoint j atEnd
  obtain ⟨e, l, hl⟩ := exponentDigits_append hexponent hrest k atEnd
  rw [List.append_assoc, List.append_assoc]
  exact ⟨_, _, _, _, _, _, hj, hk, hl⟩

theorem numeral_append {cs rest : List Char} (h : IsNumber cs) (hrest : Stops rest) (i : Nat)
    (atEnd : Malformed) : ∃ n j, numeral ⟨cs ++ rest, i⟩ atEnd = .ok (n, ⟨rest, j⟩) := by
  cases h with
  | negative h =>
    obtain ⟨_, _, _, _, _, j, hwhole, hfraction, hexponent⟩ := parts_append h hrest (i + '-'.utf8Size) atEnd
    simp only [numeral, List.cons_append, eat_cons, hwhole, hfraction, hexponent, bind, Except.bind, pure,
      Except.pure]
    exact ⟨_, j, rfl⟩
  | plain h =>
    obtain ⟨_, _, _, _, _, j, hwhole, hfraction, hexponent⟩ := parts_append h hrest i atEnd
    obtain ⟨d, tail, rfl, hd⟩ := h.head
    have hminus : d ≠ '-' := by
      rintro rfl
      cases hd
    rw [List.cons_append] at hwhole ⊢
    unfold numeral
    split
    next negative afterSign hsign =>
    split at hsign
    · next heq => exact absurd (List.cons.inj heq).1 hminus
    · obtain ⟨rfl, rfl⟩ := Prod.mk.inj hsign
      simp only [hwhole, hfraction, hexponent, bind, Except.bind, pure, Except.pure]
      exact ⟨_, j, rfl⟩

theorem skipNumber_append {cs rest : List Char} (h : IsNumber cs) (hrest : Stops rest) (i : Nat) :
    ∃ j, skipNumber ⟨cs ++ rest, i⟩ = .ok ⟨rest, j⟩ := by
  obtain ⟨n, j, hj⟩ := numeral_append h hrest i .badNumber
  refine ⟨j, ?_⟩
  simp only [skipNumber, hj, bind, Except.bind, pure, Except.pure]

end Cursor

/-! ## Numbers that are written -/

theorem isDigits_toDigits (n : Nat) : IsDigits (Nat.toDigits 10 n) :=
  ⟨Nat.toDigits_ne_nil, fun _ hd => Nat.isDigit_of_mem_toDigits (by decide) (by decide) hd⟩

theorem isNumber_int (n : Int) : IsNumber (toString n).toList := by
  have hwhole : ∀ k : Nat, IsUnsigned (Nat.toDigits 10 k) := by
    intro k
    have hk : IsWhole (Nat.toDigits 10 k) := by
      rcases Nat.eq_zero_or_pos k with rfl | hpos
      · exact .zero
      · exact .leading (Decimal.isLeading_toDigits hpos)
    simpa using IsUnsigned.mk hk .none .none
  rw [Int.toString_eq_repr, Int.repr_eq_if]
  split
  · rw [Nat.toList_repr]
    exact .plain (hwhole _)
  · have htext : ("-" ++ (-n).toNat.repr).toList = '-' :: Nat.toDigits 10 (-n).toNat := by simp
    rw [htext]
    exact .negative (hwhole _)

theorem isExponent_floatStyle (power : Int) : IsExponent (floatStyle.exponent power).toList := by
  have hpadding : floatStyle.exponentWidth - (Nat.toDigits 10 power.natAbs).length = 0 := by
    have hpos : 0 < (Nat.toDigits 10 power.natAbs).length := List.length_pos_iff.2 Nat.toDigits_ne_nil
    show 1 - _ = 0
    omega
  have hdigits := isDigits_toDigits power.natAbs
  simp only [Decimal.Style.exponent, hpadding, List.replicate_zero, List.nil_append]
  split
  · simpa using IsExponent.negative hdigits
  · simpa [floatStyle] using IsExponent.plain hdigits

theorem isUnsigned_write {d : Decimal.Digits} (h : Decimal.IsLeading d.digits) :
    IsUnsigned (floatStyle.write d).toList := by
  obtain ⟨first, tail, hcons, hfirst⟩ := h.head
  have hzeros : ∀ n, ∀ c ∈ List.replicate n '0', c.isDigit = true := by
    intro n c hc
    rw [(List.mem_replicate.1 hc).2]
    rfl
  unfold Decimal.Style.write
  split
  · split
    · -- Zeros stand between the point and the digits.
      have hdigits : IsDigits (List.replicate (-d.power - 1).toNat '0' ++ d.digits) := by
        refine ⟨by simp [hcons], ?_⟩
        rw [List.forall_mem_append]
        exact ⟨hzeros _, h.digits⟩
      simpa using IsUnsigned.mk .zero (.point hdigits) .none
    · -- The digits are cut at the point, and filled up with zeros if they do not reach it.
      have hwhole : IsWhole (d.digits.take (d.power.toNat + 1) ++
          List.replicate (d.power.toNat + 1 - d.digits.length) '0') := by
        refine .leading ⟨?_, first, _, by rw [hcons, List.take_succ_cons, List.cons_append], hfirst⟩
        rw [List.forall_mem_append]
        exact ⟨fun c hc => h.digits c (List.mem_of_mem_take hc), hzeros _⟩
      by_cases hnone : d.digits.drop (d.power.toNat + 1) = []
      · have hzero : IsDigits ['0'] := ⟨by simp, by simp⟩
        simpa [hnone] using IsUnsigned.mk hwhole (.point hzero) .none
      · have hdigits : IsDigits (d.digits.drop (d.power.toNat + 1)) :=
          ⟨hnone, fun c hc => h.digits c (List.mem_of_mem_drop hc)⟩
        simpa [hnone] using IsUnsigned.mk hwhole (.point hdigits) .none
  · -- One digit stands before the point, and the power of ten is written.
    have hwhole : IsWhole (d.digits.take 1) := by
      refine .leading ⟨fun c hc => h.digits c (List.mem_of_mem_take hc), first, [], ?_, hfirst⟩
      rw [hcons, List.take_succ_cons, List.take_zero]
    have hexponent := isExponent_floatStyle d.power
    by_cases hnone : d.digits.tail = []
    · simpa [hnone] using IsUnsigned.mk hwhole .none hexponent
    · have hdigits : IsDigits d.digits.tail := ⟨hnone, fun c hc => h.digits c (List.mem_of_mem_tail hc)⟩
      simpa [hnone] using IsUnsigned.mk hwhole (.point hdigits) hexponent

/-- The text of a floating point number is a number. -/
theorem isNumber_floatText (bits : UInt64) : IsNumber (floatStyle.text bits).toList := by
  have hsigned : ∀ (negative : Bool) {text : String}, IsUnsigned text.toList →
      IsNumber ((if negative then "-" else "") ++ text).toList := by
    intro negative text h
    cases negative with
    | true => simpa using IsNumber.negative h
    | false => simpa using IsNumber.plain h
  unfold Decimal.Style.text
  by_cases hzero : (Decimal.Binary.ofBits bits).mantissa = 0
  · have hdigits : IsDigits ['0'] := ⟨by simp, by simp⟩
    simp only [hzero, if_true]
    exact hsigned _ (IsUnsigned.mk .zero (.point hdigits) .none)
  · obtain ⟨n, hn, hdigits⟩ := Decimal.shortest_digits hzero
    simp only [hzero, if_false]
    exact hsigned _ (isUnsigned_write (hdigits ▸ Decimal.isLeading_significant hn))

/-! ## Strings and literals -/

namespace Cursor

theorem skipString_quote (i : Nat) (rest : List Char) : skipString i ('"' :: rest) = .ok ⟨rest, i + 1⟩ := by
  rw [skipString]

theorem skipString_plain {c : Char} (hquote : c ≠ '"') (hslash : c ≠ '\\') (hcontrol : ¬ c.toNat < 0x20)
    (i : Nat) (text : List Char) : skipString i (c :: text) = skipString (i + c.utf8Size) text := by
  rw [skipString.eq_def]
  split
  · next heq => cases heq
  · next heq => exact absurd (List.cons.inj heq).1 hquote
  · next heq => exact absurd (List.cons.inj heq).1 hslash
  · next heq => exact absurd (List.cons.inj heq).1 hslash
  · next heq => exact absurd (List.cons.inj heq).1 hslash
  · next heq =>
    obtain ⟨rfl, rfl⟩ := List.cons.inj heq
    rw [if_neg hcontrol]

/-- A character of a string is passed over in its escaped form. -/
theorem skipString_escapedChar (c : Char) (i : Nat) (text : List Char) :
    ∃ j, skipString i (escapedChar c ++ text) = skipString j text := by
  unfold escapedChar
  split
  case h_8 hquote hslash _ _ _ _ _ =>
    split
    · next hcontrol =>
      refine ⟨i + 6, ?_⟩
      have hunit := codeUnit_control hcontrol (i + 2) text
      simp only [List.cons_append, List.nil_append]
      rw [skipString]
      simp [hunit]
    · next hcontrol => exact ⟨i + c.utf8Size, skipString_plain hquote hslash hcontrol i text⟩
  -- The other cases are escapes of one letter.
  all_goals
    refine ⟨i + 2, ?_⟩
    simp only [List.cons_append, List.nil_append]
    rw [skipString]
    · rfl
    · decide

theorem skipString_flatMap (cs rest : List Char) (i : Nat) :
    ∃ j, skipString i (cs.flatMap escapedChar ++ '"' :: rest) = .ok ⟨rest, j⟩ := by
  induction cs generalizing i with
  | nil => exact ⟨i + 1, skipString_quote i rest⟩
  | cons c cs ih =>
    obtain ⟨k, hk⟩ := skipString_escapedChar c i (cs.flatMap escapedChar ++ '"' :: rest)
    obtain ⟨j, hj⟩ := ih k
    refine ⟨j, ?_⟩
    rw [List.flatMap_cons, List.append_assoc, hk, hj]

/-- A string is passed over. -/
theorem skipString_stringText (s : String) (rest : List Char) :
    ∃ text, stringText s ++ rest = '"' :: text ∧ ∀ i, ∃ j, skipString i text = .ok ⟨rest, j⟩ := by
  refine ⟨s.toList.flatMap escapedChar ++ '"' :: rest, by simp [stringText], ?_⟩
  intro i
  exact skipString_flatMap s.toList rest i

theorem skipValueWith_number {x : Char} (h : x = '-' ∨ x.isDigit = true) (xs : List Char) (i fuel : Nat) :
    skipValueWith (fuel + 1) ⟨x :: xs, i⟩ = skipNumber ⟨x :: xs, i⟩ := by
  have hne : ∀ c : Char, (c = '-' ∨ c.isDigit = true) = False → x ≠ c := by
    rintro c hc rfl
    rwa [hc] at h
  rw [skipValueWith, skipBlanks_cons (number_head h).1]
  split
  · next heq => cases heq
  · next heq => exact absurd (List.cons.inj heq).1 (hne 'n' (by decide))
  · next heq => exact absurd (List.cons.inj heq).1 (hne 't' (by decide))
  · next heq => exact absurd (List.cons.inj heq).1 (hne 'f' (by decide))
  · next heq => exact absurd (List.cons.inj heq).1 (hne '"' (by decide))
  · next heq => exact absurd (List.cons.inj heq).1 (hne '[' (by decide))
  · next heq => exact absurd (List.cons.inj heq).1 (hne '{' (by decide))
  · next heq =>
    obtain rfl := (List.cons.inj heq).1
    rw [if_pos h]

end Cursor

/-! ## Values -/

/-- The text of any value starts with a character that is no blank and closes no list. -/
theorem head_value (v : Json) :
    ∃ x xs, v.compactChars = x :: xs ∧ Cursor.isJsonBlank x = false ∧ x ≠ ']' := by
  cases hfloat : v.isFloat with
  | false =>
    obtain ⟨x, xs, heq, hblank, hclose, -⟩ := head_compactChars hfloat
    exact ⟨x, xs, heq, hblank, hclose⟩
  | true =>
    cases v with
    | float bits =>
      obtain ⟨x, xs, heq, hx⟩ := (isNumber_floatText bits).head
      obtain ⟨hblank, hclose, -⟩ := number_head hx
      exact ⟨x, xs, by rw [compactChars, heq], hblank, hclose⟩
    | _ => cases hfloat

theorem itemsTail_cons (v : Json) (vs : List Json) : itemsTail (v :: vs) = ',' :: compactItems (v :: vs) := by
  rw [compactItems_cons, itemsTail, List.flatMap_cons, List.cons_append, itemsTail]

theorem membersTail_cons (m : String × Json) (ms : List (String × Json)) :
    membersTail (m :: ms) = ',' :: compactMembers (m :: ms) := by
  rw [compactMembers_cons, membersTail, List.flatMap_cons, List.cons_append, membersTail]

namespace Cursor

theorem skipValueWith_isNumber {cs : List Char} (h : IsNumber cs) {fuel : Nat} (hfuel : cs.length ≤ fuel)
    {rest : List Char} (hrest : Stops rest) (i : Nat) :
    ∃ j, skipValueWith fuel ⟨cs ++ rest, i⟩ = .ok ⟨rest, j⟩ := by
  obtain ⟨j, hj⟩ := skipNumber_append h hrest i
  obtain ⟨x, xs, rfl, hx⟩ := h.head
  obtain ⟨fuel, rfl⟩ := Nat.exists_eq_add_of_le' (Nat.le_trans (Nat.succ_pos xs.length) hfuel)
  rw [List.cons_append] at hj ⊢
  exact ⟨j, by rw [skipValueWith_number hx, hj]⟩

theorem skipValueWith_list {x : Char} (hblank : isJsonBlank x = false) (hclose : x ≠ ']') (xs : List Char)
    (fuel i : Nat) :
    skipValueWith (fuel + 1) ⟨'[' :: x :: xs, i⟩ = skipItemsWith fuel ⟨x :: xs, i + '['.utf8Size⟩ := by
  rw [skipValueWith, skipBlanks_cons (by decide)]
  simp only [eat_cons, skipBlanks_cons hblank]
  split
  · next heq => cases heq
  · next heq => exact absurd (List.cons.inj heq).1 hclose
  · rfl

theorem skipValueWith_object (xs : List Char) (fuel i : Nat) :
    skipValueWith (fuel + 1) ⟨'{' :: '"' :: xs, i⟩ = skipMembersWith fuel ⟨'"' :: xs, i + '{'.utf8Size⟩ := by
  have hquote : skipBlanks ⟨'"' :: xs, i + '{'.utf8Size⟩ = ⟨'"' :: xs, i + '{'.utf8Size⟩ :=
    skipBlanks_cons (by decide) xs _
  rw [skipValueWith, skipBlanks_cons (by decide)]
  simp [hquote]

/-- What follows the last item of a list closes it, and what follows any other is the next item. -/
theorem skipItemsWith_after {fuel : Nat} {c : Cursor} {vs : List Json} {rest : List Char} {i : Nat}
    (hvalue : skipValueWith fuel c = .ok ⟨itemsTail vs ++ ']' :: rest, i⟩)
    (hlater : vs ≠ [] → ∀ i, ∃ j, skipItemsWith fuel ⟨compactItems vs ++ ']' :: rest, i⟩ = .ok ⟨rest, j⟩) :
    ∃ j, skipItemsWith (fuel + 1) c = .ok ⟨rest, j⟩ := by
  rw [skipItemsWith]
  simp only [hvalue]
  cases vs with
  | nil =>
    refine ⟨i + ']'.utf8Size, ?_⟩
    have htail : itemsTail [] ++ ']' :: rest = ']' :: rest := rfl
    rw [htail, skipBlanks_cons (by decide)]
    rfl
  | cons w ws =>
    obtain ⟨j, hj⟩ := hlater (List.cons_ne_nil w ws) (i + ','.utf8Size)
    refine ⟨j, ?_⟩
    rw [itemsTail_cons, List.cons_append, skipBlanks_cons (by decide)]
    exact hj

theorem skipMembersWith_after {fuel : Nat} {name : String} {v : Json} {ms : List (String × Json)}
    {rest : List Char}
    (hvalue : ∀ i, ∃ j, skipValueWith fuel ⟨v.compactChars ++ (membersTail ms ++ '}' :: rest), i⟩ =
      .ok ⟨membersTail ms ++ '}' :: rest, j⟩)
    (hlater : ms ≠ [] → ∀ i, ∃ j, skipMembersWith fuel ⟨compactMembers ms ++ '}' :: rest, i⟩ = .ok ⟨rest, j⟩)
    (i : Nat) :
    ∃ j, skipMembersWith (fuel + 1) ⟨compactMembers ((name, v) :: ms) ++ '}' :: rest, i⟩ = .ok ⟨rest, j⟩ := by
  obtain ⟨text, htext, hskip⟩ :=
    skipString_stringText name (':' :: (v.compactChars ++ (membersTail ms ++ '}' :: rest)))
  have hall : compactMembers ((name, v) :: ms) ++ '}' :: rest = '"' :: text := by
    rw [← htext, compactMembers_cons, memberText]
    simp
  obtain ⟨k, hk⟩ := hskip (i + '"'.utf8Size)
  obtain ⟨l, hl⟩ := hvalue (k + 1)
  rw [hall, skipMembersWith, skipBlanks_cons (by decide)]
  simp only [eat_cons, hk, colon_cons, hl]
  cases ms with
  | nil =>
    refine ⟨l + '}'.utf8Size, ?_⟩
    have htail : membersTail [] ++ '}' :: rest = '}' :: rest := rfl
    rw [htail, skipBlanks_cons (by decide)]
    rfl
  | cons m ms =>
    obtain ⟨j, hj⟩ := hlater (List.cons_ne_nil m ms) (l + ','.utf8Size)
    refine ⟨j, ?_⟩
    rw [membersTail_cons, List.cons_append, skipBlanks_cons (by decide)]
    exact hj

-- Fuel is what the lengths of the texts bound. A list takes one for itself and one for each of its items,
-- which the brackets and the commas make up for.
mutual

theorem skipValueWith_compactChars : (v : Json) → ∀ {fuel : Nat} {rest : List Char} (i : Nat),
    v.compactChars.length ≤ fuel → Stops rest →
      ∃ j, skipValueWith fuel ⟨v.compactChars ++ rest, i⟩ = .ok ⟨rest, j⟩
  | .null, 0, _, _, hfuel, _ => by cases hfuel
  | .null, _ + 1, rest, i, _, _ => letters_append "ull".toList rest (i + 'n'.utf8Size)
  | .bool true, 0, _, _, hfuel, _ => by cases hfuel
  | .bool true, _ + 1, rest, i, _, _ => letters_append "rue".toList rest (i + 't'.utf8Size)
  | .bool false, 0, _, _, hfuel, _ => by cases hfuel
  | .bool false, _ + 1, rest, i, _, _ => letters_append "alse".toList rest (i + 'f'.utf8Size)
  | .int n, _, _, i, hfuel, hrest => by
    rw [compactChars] at hfuel ⊢
    exact skipValueWith_isNumber (isNumber_int n) hfuel hrest i
  | .float bits, _, _, i, hfuel, hrest => by
    rw [compactChars] at hfuel ⊢
    exact skipValueWith_isNumber (isNumber_floatText bits) hfuel hrest i
  | .str _, 0, _, _, hfuel, _ => by cases hfuel
  | .str s, fuel + 1, rest, i, _, _ => by
    obtain ⟨text, htext, hskip⟩ := skipString_stringText s rest
    rw [compactChars, htext, skipValueWith, skipBlanks_cons (by decide)]
    exact hskip (i + '"'.utf8Size)
  | .arr _, 0, _, _, hfuel, _ => by
    rw [compactChars] at hfuel
    cases hfuel
  | .arr [], _ + 1, rest, i, _, _ => ⟨i + '['.utf8Size + ']'.utf8Size, rfl⟩
  | .arr (v :: vs), fuel + 1, rest, i, hfuel, _ => by
    rw [compactChars, List.cons_append, List.length_cons, List.length_append, List.length_singleton] at hfuel
    obtain ⟨x, xs, heq, hblank, hclose⟩ := head_value v
    obtain ⟨j, hj⟩ := skipItemsWith_compactItems (v :: vs) (List.cons_ne_nil v vs) (i + '['.utf8Size)
      (show (compactItems (v :: vs)).length < fuel by omega)
    refine ⟨j, ?_⟩
    have htext : (arr (v :: vs)).compactChars ++ rest = '[' :: (compactItems (v :: vs) ++ ']' :: rest) := by
      simp [compactChars]
    rw [htext]
    rw [compactItems_cons, heq, List.cons_append, List.cons_append] at hj ⊢
    rw [skipValueWith_list hblank hclose]
    exact hj
  | .obj _, 0, _, _, hfuel, _ => by
    rw [compactChars] at hfuel
    cases hfuel
  | .obj [], _ + 1, rest, i, _, _ => ⟨i + '{'.utf8Size + '}'.utf8Size, rfl⟩
  | .obj (m :: ms), fuel + 1, rest, i, hfuel, _ => by
    rw [compactChars, List.cons_append, List.length_cons, List.length_append, List.length_singleton] at hfuel
    obtain ⟨j, hj⟩ := skipMembersWith_compactMembers (m :: ms) (List.cons_ne_nil m ms) (i + '{'.utf8Size)
      (show (compactMembers (m :: ms)).length < fuel by omega)
    refine ⟨j, ?_⟩
    have htext : (obj (m :: ms)).compactChars ++ rest = '{' :: (compactMembers (m :: ms) ++ '}' :: rest) := by
      simp [compactChars]
    obtain ⟨xs, hxs⟩ : ∃ xs, compactMembers (m :: ms) ++ '}' :: rest = '"' :: xs := by
      rw [compactMembers_cons]
      exact ⟨_, rfl⟩
    rw [htext]
    rw [hxs] at hj ⊢
    rw [skipValueWith_object]
    exact hj

theorem skipItemsWith_compactItems : (vs : List Json) → vs ≠ [] → ∀ {fuel : Nat} {rest : List Char} (i : Nat),
    (compactItems vs).length < fuel →
      ∃ j, skipItemsWith fuel ⟨compactItems vs ++ ']' :: rest, i⟩ = .ok ⟨rest, j⟩
  | [], hne, _, _, _, _ => absurd rfl hne
  | v :: vs, _, 0, _, _, hfuel => by cases hfuel
  | v :: vs, _, fuel + 1, rest, i, hfuel => by
    rw [compactItems_cons, List.length_append] at hfuel
    have hv : v.compactChars.length ≤ fuel := by omega
    obtain ⟨k, hk⟩ := skipValueWith_compactChars v i hv (stops_itemsTail vs rest)
    rw [compactItems_cons, List.append_assoc]
    refine skipItemsWith_after hk ?_
    intro hne k
    refine skipItemsWith_compactItems vs hne k ?_
    obtain ⟨w, ws, rfl⟩ := List.exists_cons_of_ne_nil hne
    rw [itemsTail_cons, List.length_cons] at hfuel
    omega

theorem skipMembersWith_compactMembers : (ms : List (String × Json)) → ms ≠ [] →
    ∀ {fuel : Nat} {rest : List Char} (i : Nat), (compactMembers ms).length < fuel →
      ∃ j, skipMembersWith fuel ⟨compactMembers ms ++ '}' :: rest, i⟩ = .ok ⟨rest, j⟩
  | [], hne, _, _, _, _ => absurd rfl hne
  | (name, v) :: ms, _, 0, _, _, hfuel => by cases hfuel
  | (name, v) :: ms, _, fuel + 1, rest, i, hfuel => by
    simp only [compactMembers_cons, memberText, List.length_append, List.length_cons] at hfuel
    refine skipMembersWith_after ?_ ?_ i
    · intro k
      exact skipValueWith_compactChars v k (by omega) (stops_membersTail ms rest)
    · intro hne k
      refine skipMembersWith_compactMembers ms hne k ?_
      obtain ⟨m, ms, rfl⟩ := List.exists_cons_of_ne_nil hne
      rw [membersTail_cons, List.length_cons] at hfuel
      omega

end

/-- **Passing over the text of a value ends right behind it**, whatever the value is. -/
theorem skipValue_compactChars (v : Json) {rest : List Char} (hrest : Stops rest) (i : Nat) :
    ∃ j, skipValue ⟨v.compactChars ++ rest, i⟩ = .ok ⟨rest, j⟩ := by
  refine skipValueWith_compactChars v i ?_ hrest
  rw [List.length_append]
  omega

end Cursor
end Json
end Routine
