import Mathlib.Data.List.Forall2
import Routine.Json.Read

/-!
# Reading back the text of a value

The text that a value is written as is read back as the value. Here this is proved for what is read alike
whatever the wanted shape: strings, numbers and literals, and the loops over elements and members.

Reading goes on in a text that does not end with the value. `Reads` therefore says that a reader takes
exactly the text of the value off any longer text; all that matters about the rest is that it does not
go on with a number (`Stops`). What the cursor counts is of no interest, since it shows only in faults.

Floating point numbers are left out: nothing that is encoded by shape has any.
-/

namespace Routine
namespace Json

/-- The text goes on with a separator, or ends. -/
def Stops : List Char → Prop
  | [] => True
  | c :: _ => c = ',' ∨ c = ']' ∨ c = '}'

/-- The value is a floating point number. -/
def isFloat : Json → Bool
  | float _ => true
  | _ => false

/-- The reader takes the text of the JSON value off any longer text, and gives the value `a`. -/
structure Reads {α : Type} (read : Cursor → Reading α) (v : Json) (a : α) : Prop where
  notFloat : v.isFloat = false
  takes : ∀ rest i, Stops rest → ∃ j, read ⟨v.compactChars ++ rest, i⟩ = .ok (a, ⟨rest, j⟩)

namespace Cursor

/-! ## Characters -/

@[simp]
theorem eat_cons (x : Char) (xs : List Char) (i : Nat) : eat ⟨x :: xs, i⟩ = ⟨xs, i + x.utf8Size⟩ := rfl

/-- Nothing is skipped before a character that is no blank. -/
theorem skipBlanks_cons {x : Char} (h : isJsonBlank x = false) (xs : List Char) (i : Nat) :
    skipBlanks ⟨x :: xs, i⟩ = ⟨x :: xs, i⟩ := by
  simp [skipBlanks, h]

theorem letters_append (xs rest : List Char) (i : Nat) :
    ∃ j, letters ⟨xs ++ rest, i⟩ xs = .ok ⟨rest, j⟩ := by
  induction xs generalizing i with
  | nil => exact ⟨i, rfl⟩
  | cons x xs ih =>
    obtain ⟨j, hj⟩ := ih (i + x.utf8Size)
    refine ⟨j, ?_⟩
    show (if x = x then letters ⟨xs ++ rest, i + x.utf8Size⟩ xs else _) = _
    rw [if_pos rfl, hj]

/-! ## Strings -/

theorem stringBody_quote (i : Nat) (rest : List Char) :
    stringBody i ('"' :: rest) = .ok ([], ⟨rest, i + 1⟩) := by
  rw [stringBody]

theorem stringBody_plain {c : Char} (hquote : c ≠ '"') (hslash : c ≠ '\\') (hcontrol : ¬ c.toNat < 0x20)
    {i : Nat} {text xs : List Char} {after : Cursor}
    (h : stringBody (i + c.utf8Size) text = .ok (xs, after)) :
    stringBody i (c :: text) = .ok (c :: xs, after) := by
  rw [stringBody.eq_def]
  split
  · next heq => cases heq
  · next heq => exact absurd (List.cons.inj heq).1 hquote
  · next heq => exact absurd (List.cons.inj heq).1 hslash
  · next heq =>
    obtain ⟨rfl, rfl⟩ := List.cons.inj heq
    rw [if_neg hcontrol, h]

theorem stringBody_escape {i k : Nat} {x : Char} {text xs : List Char} {after : Cursor}
    (hescape : escape (i + 1) text = .ok (x, k))
    (h : stringBody (i + 1 + k) (text.drop k) = .ok (xs, after)) :
    stringBody i ('\\' :: text) = .ok (x :: xs, after) := by
  rw [stringBody]
  simp only [hescape, h]

/-- An escape of a control character stands for it. All of them are tried. -/
theorem hexValue?_control : ∀ n < 0x20,
    hexValue? ['0', '0', Nat.digitChar (n / 16), Nat.digitChar (n % 16)] = some n ∧
      Text.byteLength ['0', '0', Nat.digitChar (n / 16), Nat.digitChar (n % 16)] = 4 := by
  decide

theorem codeUnit_control {c : Char} (h : c.toNat < 0x20) (i : Nat) (rest : List Char) :
    codeUnit i ('0' :: '0' :: Nat.digitChar (c.toNat / 16) :: Nat.digitChar (c.toNat % 16) :: rest) =
      .ok c.toNat := by
  obtain ⟨hvalue, hbytes⟩ := hexValue?_control c.toNat h
  simp only [codeUnit, List.take_succ_cons, List.take_zero, hvalue, hbytes]
  rfl

theorem escape_control {c : Char} (h : c.toNat < 0x20) (i : Nat) (rest : List Char) :
    escape i ('u' :: '0' :: '0' :: Nat.digitChar (c.toNat / 16) :: Nat.digitChar (c.toNat % 16) :: rest) =
      .ok (c, 5) := by
  have hlow : ¬ (0xDC00 ≤ c.toNat ∧ c.toNat ≤ 0xDFFF) := by omega
  have hhigh : c.toNat < 0xD800 ∨ 0xDBFF < c.toNat := by omega
  simp only [escape, codeUnit_control h, bind, Except.bind, if_neg hlow, if_pos hhigh, pure, Except.pure,
    Char.ofNat_toNat]

/-- A character of a string is read back from its escaped form. -/
theorem stringBody_escapedChar (c : Char) (i : Nat) (text : List Char) :
    ∃ j, ∀ {xs : List Char} {after : Cursor}, stringBody j text = .ok (xs, after) →
      stringBody i (escapedChar c ++ text) = .ok (c :: xs, after) := by
  unfold escapedChar
  split
  case h_8 hquote hslash _ _ _ _ _ =>
    split
    · next hcontrol => exact ⟨i + 1 + 5, fun h => stringBody_escape (escape_control hcontrol _ text) h⟩
    · next hcontrol => exact ⟨i + c.utf8Size, fun h => stringBody_plain hquote hslash hcontrol h⟩
  -- The other cases are escapes of one letter.
  all_goals exact ⟨i + 1 + 1, fun h => stringBody_escape rfl h⟩

theorem stringBody_flatMap (cs rest : List Char) (i : Nat) :
    ∃ j, stringBody i (cs.flatMap escapedChar ++ '"' :: rest) = .ok (cs, ⟨rest, j⟩) := by
  induction cs generalizing i with
  | nil => exact ⟨i + 1, stringBody_quote i rest⟩
  | cons c cs ih =>
    obtain ⟨k, hk⟩ := stringBody_escapedChar c i (cs.flatMap escapedChar ++ '"' :: rest)
    obtain ⟨j, hj⟩ := ih k
    refine ⟨j, ?_⟩
    rw [List.flatMap_cons, List.append_assoc]
    exact hk hj

/-- A string is read back from its text. -/
theorem string_stringText (s : String) (rest : List Char) (i : Nat) :
    ∃ j, string ⟨stringText s ++ rest, i⟩ = .ok (s, ⟨rest, j⟩) := by
  obtain ⟨j, hj⟩ := stringBody_flatMap s.toList rest (i + '"'.utf8Size)
  refine ⟨j, ?_⟩
  have htext : stringText s ++ rest = '"' :: (s.toList.flatMap escapedChar ++ '"' :: rest) := by
    simp [stringText]
  rw [htext, string, eat_cons, hj]
  simp only [String.ofList_toList]

end Cursor

/-! ## Numbers -/

namespace Numeral

theorem le_ofDigitChars (ds : List Char) (significand : Nat) :
    significand ≤ Nat.ofDigitChars 10 ds significand := by
  induction ds generalizing significand with
  | nil => exact Nat.le_of_eq Nat.ofDigitChars_nil.symm
  | cons d ds ih =>
    rw [Nat.ofDigitChars_cons]
    exact Nat.le_trans (by omega) (ih (10 * significand + (d.toNat - '0'.toNat)))

/-- Digits of a number that fits are all taken. -/
theorem absorb_of_le {ds : List Char} {significand : Nat}
    (h : Nat.ofDigitChars 10 ds significand ≤ maxUnsigned) :
    absorb significand ds = (Nat.ofDigitChars 10 ds significand, ds.length) := by
  induction ds generalizing significand with
  | nil => rw [absorb, Nat.ofDigitChars_nil]; rfl
  | cons d ds ih =>
    have hnext : significand * 10 + digit d = 10 * significand + (d.toNat - '0'.toNat) := by
      rw [Nat.mul_comm]; rfl
    rw [Nat.ofDigitChars_cons] at h ⊢
    have hfits : ¬ maxUnsigned < 10 * significand + (d.toNat - '0'.toNat) :=
      Nat.not_lt.2 (Nat.le_trans (le_ofDigitChars ds _) h)
    simp only [absorb, hnext, if_neg hfits, ih h, List.length_cons]

theorem absorb_toDigits {n : Nat} (h : n ≤ maxUnsigned) :
    absorb 0 (Nat.toDigits 10 n) = (n, (Nat.toDigits 10 n).length) := by
  have hdigits : Nat.ofDigitChars 10 (Nat.toDigits 10 n) 0 = n := Nat.ofDigitChars_ten_toDigits
  rw [absorb_of_le (by rw [hdigits]; exact h), hdigits]

/-- A whole number with the digits. -/
def plain (negative : Bool) (digits : List Char) : Numeral where
  negative := negative
  whole := digits
  fraction := []
  exponent := []
  negativeExponent := false
  isDecimal := false

theorem value_plain {n : Nat} (h : n ≤ maxUnsigned) :
    (plain false (Nat.toDigits 10 n)).value = .ok (.int n) := by
  simp [value, plain, absorb_toDigits h]

theorem value_plain_negative {n : Nat} (hpos : 0 < n) (h : n ≤ 0x8000000000000000) :
    (plain true (Nat.toDigits 10 n)).value = .ok (.int (-(n : Int))) := by
  have hfits : n ≤ maxUnsigned := Nat.le_trans h (by decide)
  simp [value, plain, absorb_toDigits hfits, hpos, h]

/-- A number that is not zero does not start with a zero. -/
theorem head_toDigits {n : Nat} (h : 0 < n) :
    ∃ d ds, Nat.toDigits 10 n = d :: ds ∧ d ≠ '0' := by
  induction n using Nat.strongRecOn with
  | ind n ih =>
    by_cases hsmall : n < 10
    · refine ⟨n.digitChar, [], Nat.toDigits_of_lt_base hsmall, ?_⟩
      have hall : ∀ k < 10, 0 < k → Nat.digitChar k ≠ '0' := by decide
      exact hall n hsmall h
    · obtain ⟨d, ds, heq, hd⟩ := ih (n / 10) (by omega) (by omega)
      refine ⟨d, ds ++ [Nat.digitChar (n % 10)], ?_, hd⟩
      rw [Nat.toDigits_of_base_le (by omega) (by omega), heq, List.cons_append]

end Numeral

theorem Stops.not_isDigit {c : Char} {rest : List Char} (h : Stops (c :: rest)) : c.isDigit = false := by
  rcases h with rfl | rfl | rfl <;> rfl

namespace Cursor

theorem takeWhile_isDigit {ds rest : List Char} (hds : ∀ d ∈ ds, d.isDigit = true) (hrest : Stops rest) :
    (ds ++ rest).takeWhile Char.isDigit = ds := by
  rw [List.takeWhile_append_of_pos hds]
  cases rest with
  | nil => simp
  | cons c rest => simp [hrest.not_isDigit]

theorem head_isDigit (n : Nat) : ∃ d ds, Nat.toDigits 10 n = d :: ds ∧ d.isDigit = true := by
  cases heq : Nat.toDigits 10 n with
  | nil => exact absurd heq Nat.toDigits_ne_nil
  | cons d ds =>
    have hmem : d ∈ Nat.toDigits 10 n := heq ▸ List.mem_cons_self
    exact ⟨d, ds, rfl, Nat.isDigit_of_mem_toDigits (by decide) (by decide) hmem⟩

theorem wholeDigits_toDigits (n : Nat) {rest : List Char} (hrest : Stops rest) (i : Nat) (atEnd : Malformed) :
    ∃ j, wholeDigits ⟨Nat.toDigits 10 n ++ rest, i⟩ atEnd = .ok (Nat.toDigits 10 n, ⟨rest, j⟩) := by
  have hdigits : ∀ d ∈ Nat.toDigits 10 n, d.isDigit = true := fun d hd =>
    Nat.isDigit_of_mem_toDigits (by decide) (by decide) hd
  by_cases hzero : n = 0
  · -- A number may start with zero only if it is zero.
    subst hzero
    refine ⟨i + '0'.utf8Size, ?_⟩
    show wholeDigits ⟨'0' :: rest, i⟩ atEnd = .ok (['0'], _)
    cases rest with
    | nil => rfl
    | cons c rest => simp [wholeDigits, hrest.not_isDigit]
  · obtain ⟨d, ds, heq, hd⟩ := Numeral.head_toDigits (Nat.pos_of_ne_zero hzero)
    rw [heq] at hdigits ⊢
    refine ⟨i + (d :: ds).length, ?_⟩
    have htake : (d :: (ds ++ rest)).takeWhile Char.isDigit = d :: ds := takeWhile_isDigit hdigits hrest
    have hdrop : (d :: (ds ++ rest)).drop (d :: ds).length = rest := by simp
    rw [List.cons_append, wholeDigits.eq_def]
    split
    · next hnil => cases hnil
    · next hcons => exact absurd (List.cons.inj hcons).1 hd
    · next hcons =>
      obtain ⟨rfl, rfl⟩ := List.cons.inj hcons
      rw [if_pos (hdigits d List.mem_cons_self)]
      simp only [digits, htake, hdrop]

theorem fractionDigits_of_stops {rest : List Char} (h : Stops rest) (i : Nat) (atEnd : Malformed) :
    fractionDigits ⟨rest, i⟩ atEnd = .ok (none, ⟨rest, i⟩) := by
  cases rest with
  | nil => rfl
  | cons c rest => rcases h with rfl | rfl | rfl <;> rfl

theorem exponentDigits_of_stops {rest : List Char} (h : Stops rest) (i : Nat) (atEnd : Malformed) :
    exponentDigits ⟨rest, i⟩ atEnd = .ok (none, ⟨rest, i⟩) := by
  cases rest with
  | nil => rfl
  | cons c rest => rcases h with rfl | rfl | rfl <;> rfl

theorem numeral_toDigits (n : Nat) {rest : List Char} (hrest : Stops rest) (i : Nat) (atEnd : Malformed) :
    ∃ j, numeral ⟨Nat.toDigits 10 n ++ rest, i⟩ atEnd = .ok (.plain false (Nat.toDigits 10 n), ⟨rest, j⟩) := by
  obtain ⟨j, hj⟩ := wholeDigits_toDigits n hrest i atEnd
  obtain ⟨d, ds, heq, hd⟩ := head_isDigit n
  refine ⟨j, ?_⟩
  rw [heq, List.cons_append] at hj ⊢
  unfold numeral
  split
  next negative afterSign hsign =>
  split at hsign
  · next hminus =>
    obtain rfl := (List.cons.inj hminus).1
    exact absurd hd (by decide)
  · obtain ⟨rfl, rfl⟩ := Prod.mk.inj hsign
    simp only [hj, bind, Except.bind, fractionDigits_of_stops hrest, exponentDigits_of_stops hrest, pure,
      Except.pure]
    rfl

theorem numeral_toDigits_negative (n : Nat) {rest : List Char} (hrest : Stops rest) (i : Nat)
    (atEnd : Malformed) :
    ∃ j, numeral ⟨'-' :: Nat.toDigits 10 n ++ rest, i⟩ atEnd =
      .ok (.plain true (Nat.toDigits 10 n), ⟨rest, j⟩) := by
  obtain ⟨j, hj⟩ := wholeDigits_toDigits n hrest (i + '-'.utf8Size) atEnd
  refine ⟨j, ?_⟩
  simp only [numeral, List.cons_append, eat_cons, hj, bind, Except.bind, fractionDigits_of_stops hrest,
    exponentDigits_of_stops hrest, pure, Except.pure]
  rfl

end Cursor

/-! ## Scalars -/

/-- The number has a place among the integers of 64 bits, with or without a sign. -/
def FitsWord (n : Int) : Prop := -0x8000000000000000 ≤ n ∧ n ≤ 0xFFFFFFFFFFFFFFFF

/-- A value without parts that is read back from its text. -/
def IsScalar : Json → Prop
  | null => True
  | bool _ => True
  | int n => FitsWord n
  | str _ => True
  | _ => False

namespace Cursor

theorem number_int {n : Int} (h : FitsWord n) {rest : List Char} (hrest : Stops rest) (i : Nat) :
    ∃ j, number ⟨(toString n).toList ++ rest, i⟩ = .ok (.int n, ⟨rest, j⟩) := by
  rw [Int.toString_eq_repr, Int.repr_eq_if]
  split
  · next hn =>
    obtain ⟨j, hj⟩ := numeral_toDigits n.toNat hrest i .endInValue
    have hvalue := Numeral.value_plain (n := n.toNat) (by unfold FitsWord at h; unfold Numeral.maxUnsigned; omega)
    refine ⟨j, ?_⟩
    rw [Nat.toList_repr]
    simp only [number, hj, bind, Except.bind, hvalue, pure, Except.pure, Int.toNat_of_nonneg hn]
  · next hn =>
    obtain ⟨j, hj⟩ := numeral_toDigits_negative (-n).toNat hrest i .endInValue
    have hvalue := Numeral.value_plain_negative (n := (-n).toNat) (by omega) (by unfold FitsWord at h; omega)
    have htext : ("-" ++ (-n).toNat.repr).toList = '-' :: Nat.toDigits 10 (-n).toNat := by simp
    have hback : -((-n).toNat : Int) = n := by omega
    refine ⟨j, ?_⟩
    rw [htext]
    simp only [number, hj, bind, Except.bind, hvalue, pure, Except.pure, hback]

end Cursor

theorem head_int (n : Int) :
    ∃ x xs, (toString n).toList = x :: xs ∧ (x = '-' ∨ x.isDigit = true) := by
  rw [Int.toString_eq_repr, Int.repr_eq_if]
  split
  · obtain ⟨d, ds, heq, hd⟩ := Cursor.head_isDigit n.toNat
    exact ⟨d, ds, by rw [Nat.toList_repr, heq], .inr hd⟩
  · exact ⟨'-', Nat.toDigits 10 (-n).toNat, by simp, .inl rfl⟩

/-- A number is none of the other scalars. -/
theorem readScalar_number {x : Char} (h : x = '-' ∨ x.isDigit = true) (xs : List Char) (i : Nat) :
    readScalar ⟨x :: xs, i⟩ = Cursor.number ⟨x :: xs, i⟩ := by
  rw [readScalar.eq_def]
  split
  · next heq => cases heq
  · next heq =>
    obtain rfl := (List.cons.inj heq).1
    exact absurd h (by decide)
  · next heq =>
    obtain rfl := (List.cons.inj heq).1
    exact absurd h (by decide)
  · next heq =>
    obtain rfl := (List.cons.inj heq).1
    exact absurd h (by decide)
  · next heq =>
    obtain rfl := (List.cons.inj heq).1
    exact absurd h (by decide)
  · next heq =>
    obtain rfl := (List.cons.inj heq).1
    rw [if_pos h]

theorem literal_append {α : Type} (x : Char) (letters : String) (value : α) (rest : List Char) (i : Nat) :
    ∃ j, literal ⟨x :: letters.toList ++ rest, i⟩ letters value = .ok (value, ⟨rest, j⟩) := by
  obtain ⟨j, hj⟩ := Cursor.letters_append letters.toList rest (i + x.utf8Size)
  refine ⟨j, ?_⟩
  rw [List.cons_append, literal, Cursor.eat_cons, hj]

theorem IsScalar.notFloat {v : Json} (h : v.IsScalar) : v.isFloat = false := by
  cases v with
  | float bits => cases h
  | _ => rfl

/-- A scalar is read back from its text. -/
theorem reads_readScalar {v : Json} (h : v.IsScalar) : Reads readScalar v v := by
  refine ⟨h.notFloat, ?_⟩
  intro rest i hrest
  cases v with
  | null => exact literal_append 'n' "ull" null rest i
  | bool b =>
    cases b with
    | true => exact literal_append 't' "rue" (bool true) rest i
    | false => exact literal_append 'f' "alse" (bool false) rest i
  | int n =>
    obtain ⟨x, xs, heq, hx⟩ := head_int n
    obtain ⟨j, hj⟩ := Cursor.number_int h hrest i
    refine ⟨j, ?_⟩
    rw [compactChars]
    rw [heq, List.cons_append] at hj ⊢
    rw [readScalar_number hx, hj]
  | str s =>
    obtain ⟨j, hj⟩ := Cursor.string_stringText s rest i
    refine ⟨j, ?_⟩
    rw [compactChars]
    rw [stringText, List.cons_append, List.cons_append] at hj ⊢
    simp only [readScalar, hj]
  | float bits => cases h
  | arr items => cases h
  | obj members => cases h

/-! ## Heads -/

theorem number_head {x : Char} (h : x = '-' ∨ x.isDigit = true) :
    Cursor.isJsonBlank x = false ∧ x ≠ ']' ∧ x ≠ 'n' := by
  refine ⟨?_, ?_, ?_⟩
  · rw [← Bool.not_eq_true]
    intro hblank
    simp only [Cursor.isJsonBlank, Bool.or_eq_true, decide_eq_true_eq] at hblank
    rcases hblank with ((rfl | rfl) | rfl) | rfl <;> exact absurd h (by decide)
  · rintro rfl
    exact absurd h (by decide)
  · rintro rfl
    exact absurd h (by decide)

/-- The text of a value starts with a character that is no blank and closes no list; only null starts
with its letter. -/
theorem head_compactChars {v : Json} (h : v.isFloat = false) :
    ∃ x xs, v.compactChars = x :: xs ∧ Cursor.isJsonBlank x = false ∧ x ≠ ']' ∧ (v ≠ null → x ≠ 'n') := by
  cases v with
  | null => exact ⟨'n', _, rfl, rfl, by decide, fun hnull => absurd rfl hnull⟩
  | bool b =>
    cases b with
    | true => exact ⟨'t', _, rfl, rfl, by decide, fun _ => by decide⟩
    | false => exact ⟨'f', _, rfl, rfl, by decide, fun _ => by decide⟩
  | int n =>
    obtain ⟨x, xs, heq, hx⟩ := head_int n
    obtain ⟨hblank, hclose, hn⟩ := number_head hx
    exact ⟨x, xs, by rw [compactChars, heq], hblank, hclose, fun _ => hn⟩
  | float bits => cases h
  | str s => exact ⟨'"', _, rfl, rfl, by decide, fun _ => by decide⟩
  | arr items => exact ⟨'[', _, by rw [compactChars]; rfl, rfl, by decide, fun _ => by decide⟩
  | obj members => exact ⟨'{', _, by rw [compactChars]; rfl, rfl, by decide, fun _ => by decide⟩

/-! ## Lists -/

/-- The texts of items, each after a comma. -/
def itemsTail (vs : List Json) : List Char := vs.flatMap fun v => ',' :: v.compactChars

/-- The texts of items with commas between them, and one before them unless they are the first. -/
def itemsText (first : Bool) (vs : List Json) : List Char :=
  if first then compactItems vs else itemsTail vs

theorem itemsText_nil (first : Bool) : itemsText first [] = [] := by
  cases first <;> rfl

theorem compactItems_cons (v : Json) (vs : List Json) :
    compactItems (v :: vs) = v.compactChars ++ itemsTail vs := by
  induction vs generalizing v with
  | nil => rw [compactItems, itemsTail, List.flatMap_nil, List.append_nil]
  | cons w ws ih =>
    have htail : itemsTail (w :: ws) = ',' :: (w.compactChars ++ itemsTail ws) := by
      rw [itemsTail, List.flatMap_cons, List.cons_append, itemsTail]
    rw [htail, ← ih w]
    rfl

theorem stops_itemsTail (vs : List Json) (rest : List Char) : Stops (itemsTail vs ++ ']' :: rest) := by
  cases vs with
  | nil => exact .inr (.inl rfl)
  | cons v vs => exact .inl rfl

namespace Cursor

theorem nextItem_close (first : Bool) (rest : List Char) (i : Nat) :
    nextItem ⟨']' :: rest, i⟩ first = .ok (false, ⟨']' :: rest, i⟩) := by
  rw [nextItem, skipBlanks_cons (by decide)]
  rfl

/-- Before an item the cursor comes to the text of the item, which is what is left or less. -/
theorem nextItem_itemsText (first : Bool) {v : Json} (h : v.isFloat = false) (vs : List Json)
    (rest : List Char) (i : Nat) :
    ∃ k, nextItem ⟨itemsText first (v :: vs) ++ rest, i⟩ first =
        .ok (true, ⟨v.compactChars ++ (itemsTail vs ++ rest), k⟩) ∧
      (itemsTail vs ++ rest).length < (itemsText first (v :: vs) ++ rest).length := by
  obtain ⟨x, xs, heq, hblank, hclose, -⟩ := head_compactChars h
  cases first with
  | true =>
    have htext : itemsText true (v :: vs) ++ rest = x :: (xs ++ (itemsTail vs ++ rest)) := by
      simp [itemsText, compactItems_cons, heq]
    refine ⟨i, ?_, ?_⟩
    · simp [htext, heq, nextItem, skipBlanks_cons hblank]
    · rw [htext]
      simp only [List.length_cons, List.length_append]
      omega
  | false =>
    have htext : itemsText false (v :: vs) ++ rest = ',' :: x :: (xs ++ (itemsTail vs ++ rest)) := by
      simp [itemsText, itemsTail, heq]
    have hcomma : skipBlanks ⟨',' :: x :: (xs ++ (itemsTail vs ++ rest)), i⟩ =
        ⟨',' :: x :: (xs ++ (itemsTail vs ++ rest)), i⟩ := skipBlanks_cons (by decide) _ i
    refine ⟨i + 1, ?_, ?_⟩
    · simp [htext, heq, nextItem, hcomma, skipBlanks_cons hblank, hclose]
      rfl
    · rw [htext]
      simp only [List.length_cons, List.length_append]
      omega

theorem endList_close (rest : List Char) (i : Nat) : ∃ j, endList ⟨']' :: rest, i⟩ = .ok ⟨rest, j⟩ := by
  refine ⟨i + 1, ?_⟩
  rw [endList, skipBlanks_cons (by decide)]
  rfl

end Cursor

/-- The items of a list are read, up to the closing bracket. -/
theorem readItems_itemsText {α : Type} {item : Cursor → Reading α} {vs : List Json} {as : List α}
    (h : List.Forall₂ (Reads item) vs as) (first : Bool) (rest : List Char) (i : Nat) :
    ∃ j, readItems item first ⟨itemsText first vs ++ ']' :: rest, i⟩ = .ok (as, ⟨']' :: rest, j⟩) := by
  induction h generalizing first i with
  | nil =>
    refine ⟨i, ?_⟩
    rw [readItems, itemsText_nil, List.nil_append, Cursor.nextItem_close]
  | @cons v a vs as hv _ ih =>
    obtain ⟨k, hnext, hshorter⟩ := Cursor.nextItem_itemsText first hv.notFloat vs (']' :: rest) i
    obtain ⟨l, hl⟩ := hv.takes (itemsTail vs ++ ']' :: rest) k (stops_itemsTail _ rest)
    obtain ⟨j, hj⟩ := ih false l
    have hj : readItems item false ⟨itemsTail vs ++ ']' :: rest, l⟩ = .ok (as, ⟨']' :: rest, j⟩) := hj
    refine ⟨j, ?_⟩
    rw [readItems, hnext]
    simp only [hl]
    rw [dif_pos hshorter, hj]

theorem entering_succ {α : Type} {room : Nat} (h : 0 < room) (c : Cursor)
    (inside : Nat → Cursor → Reading α) : entering (room + 1) c inside = inside room c.eat := by
  obtain ⟨k, rfl⟩ := Nat.exists_eq_succ_of_ne_zero (Nat.pos_iff_ne_zero.1 h)
  rfl

/-- A list is read back when what is inside its brackets is. -/
theorem readList_arr {α : Type} {room : Nat} (hroom : 0 < room) (inside : Nat → Cursor → Reading α)
    {items : List Json} {a : α}
    (h : ∀ rest i, ∃ j, inside room ⟨itemsText true items ++ ']' :: rest, i⟩ = .ok (a, ⟨']' :: rest, j⟩))
    (rest : List Char) (i : Nat) :
    ∃ j, readList (room + 1) ⟨(arr items).compactChars ++ rest, i⟩ inside = .ok (a, ⟨rest, j⟩) := by
  obtain ⟨k, hk⟩ := h rest (i + '['.utf8Size)
  obtain ⟨j, hj⟩ := Cursor.endList_close rest k
  refine ⟨j, ?_⟩
  have htext : (arr items).compactChars ++ rest = '[' :: (itemsText true items ++ ']' :: rest) := by
    simp [compactChars, itemsText]
  rw [htext, readList, entering_succ hroom, Cursor.eat_cons]
  simp only [hk, hj]

/-! ## Objects -/

/-- The text of a member. -/
def memberText (m : String × Json) : List Char := stringText m.1 ++ ':' :: m.2.compactChars

/-- The texts of members, each after a comma. -/
def membersTail (ms : List (String × Json)) : List Char := ms.flatMap fun m => ',' :: memberText m

/-- The texts of members with commas between them, and one before them unless they are the first. -/
def membersText (first : Bool) (ms : List (String × Json)) : List Char :=
  if first then compactMembers ms else membersTail ms

theorem membersText_nil (first : Bool) : membersText first [] = [] := by
  cases first <;> rfl

theorem compactMembers_cons (m : String × Json) (ms : List (String × Json)) :
    compactMembers (m :: ms) = memberText m ++ membersTail ms := by
  induction ms generalizing m with
  | nil => rw [compactMembers, memberText, membersTail, List.flatMap_nil, List.append_nil]
  | cons n ns ih =>
    have htail : membersTail (n :: ns) = ',' :: (memberText n ++ membersTail ns) := by
      rw [membersTail, List.flatMap_cons, List.cons_append, membersTail]
    rw [htail, ← ih n]
    rfl

theorem stops_membersTail (ms : List (String × Json)) (rest : List Char) :
    Stops (membersTail ms ++ '}' :: rest) := by
  cases ms with
  | nil => exact .inr (.inr rfl)
  | cons m ms => exact .inl rfl

namespace Cursor

theorem nextMember_close (first : Bool) (rest : List Char) (i : Nat) :
    nextMember ⟨'}' :: rest, i⟩ first = .ok (false, ⟨'}' :: rest, i⟩) := by
  rw [nextMember, skipBlanks_cons (by decide)]
  rfl

/-- Before a member the cursor comes to its name, and then to its colon. -/
theorem nextMember_membersText (first : Bool) (m : String × Json) (ms : List (String × Json))
    (rest : List Char) (i : Nat) :
    ∃ k l, nextMember ⟨membersText first (m :: ms) ++ rest, i⟩ first = .ok (true, k) ∧
      k.string = .ok (m.1, ⟨':' :: m.2.compactChars ++ (membersTail ms ++ rest), l⟩) ∧
      (membersTail ms ++ rest).length < (membersText first (m :: ms) ++ rest).length := by
  have hquote : ∀ text i, skipBlanks ⟨'"' :: text, i⟩ = ⟨'"' :: text, i⟩ := skipBlanks_cons (by decide)
  obtain ⟨text, htext⟩ : ∃ text, stringText m.1 ++ (':' :: m.2.compactChars ++ (membersTail ms ++ rest)) =
    '"' :: text := ⟨_, rfl⟩
  cases first with
  | true =>
    have hall : membersText true (m :: ms) ++ rest =
        stringText m.1 ++ (':' :: m.2.compactChars ++ (membersTail ms ++ rest)) := by
      simp [membersText, compactMembers_cons, memberText]
    obtain ⟨l, hl⟩ := string_stringText m.1 (':' :: m.2.compactChars ++ (membersTail ms ++ rest)) i
    refine ⟨_, l, ?_, hl, ?_⟩
    · rw [hall, htext]
      simp [nextMember, hquote]
    · rw [hall]
      simp only [List.length_append, List.length_cons]
      omega
  | false =>
    have hall : membersText false (m :: ms) ++ rest =
        ',' :: (stringText m.1 ++ (':' :: m.2.compactChars ++ (membersTail ms ++ rest))) := by
      simp [membersText, membersTail, memberText]
    have hcomma : skipBlanks ⟨',' :: '"' :: text, i⟩ = ⟨',' :: '"' :: text, i⟩ :=
      skipBlanks_cons (by decide) _ i
    obtain ⟨l, hl⟩ := string_stringText m.1 (':' :: m.2.compactChars ++ (membersTail ms ++ rest)) (i + 1)
    refine ⟨_, l, ?_, hl, ?_⟩
    · rw [hall, htext]
      simp [nextMember, hcomma, hquote]
      rfl
    · rw [hall]
      simp only [List.length_append, List.length_cons]
      omega

theorem colon_cons (rest : List Char) (i : Nat) : colon ⟨':' :: rest, i⟩ = .ok ⟨rest, i + 1⟩ := by
  rw [colon, skipBlanks_cons (by decide)]
  rfl

theorem endObject_close (rest : List Char) (i : Nat) : ∃ j, endObject ⟨'}' :: rest, i⟩ = .ok ⟨rest, j⟩ := by
  refine ⟨i + 1, ?_⟩
  rw [endObject, skipBlanks_cons (by decide)]
  rfl

end Cursor

section

variable {σ : Type} {member : String → σ → Cursor → Reading σ}

/-- Reading the members one after the other takes the first state to the second. -/
inductive Steps (member : String → σ → Cursor → Reading σ) : List (String × Json) → σ → σ → Prop
  | nil {s : σ} : Steps member [] s s
  | cons {name : String} {v : Json} {ms : List (String × Json)} {s s' s'' : σ}
      (first : ∀ rest i, Stops rest →
        ∃ j, member name s ⟨':' :: v.compactChars ++ rest, i⟩ = .ok (s', ⟨rest, j⟩))
      (later : Steps member ms s' s'') : Steps member ((name, v) :: ms) s s''

/-- The members of an object are read back, up to the closing brace. -/
theorem Steps.readMembers_membersText {ms : List (String × Json)} {s s' : σ} (h : Steps member ms s s')
    (first : Bool) (rest : List Char) (i : Nat) :
    ∃ j, readMembers member first s ⟨membersText first ms ++ '}' :: rest, i⟩ =
      .ok (s', ⟨'}' :: rest, j⟩) := by
  induction h generalizing first i with
  | nil =>
    refine ⟨i, ?_⟩
    rw [readMembers, membersText_nil, List.nil_append, Cursor.nextMember_close]
  | @cons name v ms s s' s'' hfirst later ih =>
    obtain ⟨c, k, hnext, hname, hshorter⟩ :=
      Cursor.nextMember_membersText first (name, v) ms ('}' :: rest) i
    obtain ⟨l, hl⟩ := hfirst (membersTail ms ++ '}' :: rest) k (stops_membersTail ms rest)
    obtain ⟨j, hj⟩ := ih false l
    refine ⟨j, ?_⟩
    rw [readMembers, hnext]
    simp only [hname, hl]
    rw [dif_pos hshorter]
    exact hj

end

/-- An object is read back when what is inside its braces is. -/
theorem readObject_obj {α : Type} {room : Nat} (hroom : 0 < room) (inside : Nat → Cursor → Reading α)
    {members : List (String × Json)} {a : α}
    (h : ∀ rest i, ∃ j,
      inside room ⟨membersText true members ++ '}' :: rest, i⟩ = .ok (a, ⟨'}' :: rest, j⟩))
    (rest : List Char) (i : Nat) :
    ∃ j, readObject (room + 1) ⟨(obj members).compactChars ++ rest, i⟩ inside = .ok (a, ⟨rest, j⟩) := by
  obtain ⟨k, hk⟩ := h rest (i + '{'.utf8Size)
  obtain ⟨j, hj⟩ := Cursor.endObject_close rest k
  refine ⟨j, ?_⟩
  have htext : (obj members).compactChars ++ rest = '{' :: (membersText true members ++ '}' :: rest) := by
    simp [compactChars, membersText]
  rw [htext, readObject, entering_succ hroom, Cursor.eat_cons]
  simp only [hk, hj]

end Json
end Routine
