import Mathlib.Data.List.TakeWhile
import Routine.IntoClause
import Routine.Proofs.DollarTags

/-!
# Where quotations end

The scan of characters has its own idea of where a quotation or a comment ends (`quotedLength`, `dollarLength`,
`opaqueLength`). It looks for the closing mark only, while a lexeme is read for what it says. The two end in the
same place as long as backslashes count for both or for none: an escape is a backslash and a character that may be
a mark, and then characters that are not (`exists_of_escape?`).
-/

namespace Routine
namespace IntoClause

open Sql Lexer

/-! ## Closing marks -/

section

variable {mark : Char} {escapes : Bool} {cs : List Char}

theorem quotedLength_mark (hmark : '\\' ≠ mark) (cs : List Char) :
    quotedLength mark escapes (mark :: cs) =
      if cs.head? = some mark then quotedLength mark escapes cs.tail + 2 else 1 := by
  have hescape : ¬ (mark = '\\' ∧ escapes = true) := fun h => hmark h.1.symm
  cases cs with
  | nil =>
    show (if mark = '\\' ∧ escapes = true then _ else if mark = mark then 1 else _) = _
    simp [hescape]
  | cons d ds =>
    show (if mark = '\\' ∧ escapes = true then _ else if mark = mark then if d = mark then _ else _ else _) = _
    simp [hescape]

theorem quotedLength_lone : quotedLength mark true ['\\'] = 1 := by
  show (if '\\' = '\\' ∧ true = true then 1 else _) = 1
  rw [if_pos ⟨rfl, rfl⟩]

theorem quotedLength_escape (d : Char) (ds : List Char) :
    quotedLength mark true ('\\' :: d :: ds) = quotedLength mark true ds + 2 := by
  show (if '\\' = '\\' ∧ true = true then _ else _) = _
  rw [if_pos ⟨rfl, rfl⟩]

theorem quotedLength_plain {c : Char} (hc : c ≠ mark) (hescape : ¬ (c = '\\' ∧ escapes = true)) (cs : List Char) :
    quotedLength mark escapes (c :: cs) = quotedLength mark escapes cs + 1 := by
  cases cs with
  | nil =>
    show (if c = '\\' ∧ escapes = true then _ else if c = mark then _ else _) = _
    rw [if_neg hescape, if_neg hc]
  | cons d ds =>
    show (if c = '\\' ∧ escapes = true then _ else if c = mark then _ else _) = _
    rw [if_neg hescape, if_neg hc]

theorem quotedLength_append {xs : List Char} (hxs : ∀ x ∈ xs, x ≠ mark ∧ ¬ (x = '\\' ∧ escapes = true))
    (ys : List Char) : quotedLength mark escapes (xs ++ ys) = xs.length + quotedLength mark escapes ys := by
  induction xs with
  | nil => simp
  | cons x xs ih =>
    obtain ⟨hx, hxs⟩ := List.forall_mem_cons.1 hxs
    rw [List.cons_append, quotedLength_plain hx.1 hx.2, ih hxs, List.length_cons]
    omega

/-- A quoted body ends where the scan says. -/
theorem quotedLength_of_quotedBody {t : List Char} {n : Nat} (hmark : '\\' ≠ mark)
    (h : quotedBody mark escapes cs = some (t, n)) : quotedLength mark escapes cs = n := by
  induction cs using quotedBody.induct mark escapes generalizing t n with
  | case1 => cases h
  | case2 ds ih =>
    simp [quotedBody_mark] at h
    obtain ⟨text, m, hm, -, rfl⟩ := h
    simp [quotedLength_mark hmark, ih hm]
  | case3 d ds hd =>
    simp [quotedBody_mark, hd] at h
    obtain ⟨-, rfl⟩ := h
    simp [quotedLength_mark hmark, hd]
  | case4 =>
    simp [quotedBody_mark] at h
    obtain ⟨-, rfl⟩ := h
    simp [quotedLength_mark hmark]
  | case5 c hc hescape d ds ih =>
    obtain ⟨rfl, rfl⟩ := hescape
    simp [quotedBody_escape hc] at h
    obtain ⟨text, m, hm, -, rfl⟩ := h
    rw [quotedLength_escape, ih hm]
  | case6 c hc hescape => simp [quotedBody_lone hc] at h
  | case7 c cs hc hescape ih =>
    simp [quotedBody_plain hc hescape] at h
    obtain ⟨text, m, hm, -, rfl⟩ := h
    rw [quotedLength_plain hc hescape, ih hm]

/-- Without backslashes it does not matter what they mean. -/
theorem quotedLength_of_not_mem (hmark : '\\' ≠ mark) (hno : '\\' ∉ cs.take (quotedLength mark true cs)) :
    quotedLength mark false cs = quotedLength mark true cs := by
  induction hn : cs.length using Nat.strongRecOn generalizing cs with
  | _ n ih =>
    match cs with
    | [] => rfl
    | c :: cs =>
      have hc : c ≠ '\\' := by
        rintro rfl
        cases cs with
        | nil => exact hno (by rw [quotedLength_lone]; exact List.mem_cons_self)
        | cons d ds => exact hno (by rw [quotedLength_escape]; exact List.mem_cons_self)
      have hescape (escapes : Bool) : ¬ (c = '\\' ∧ escapes = true) := fun h => hc h.1
      by_cases hcm : c = mark
      · subst hcm
        rw [quotedLength_mark hmark] at hno ⊢
        rw [quotedLength_mark hmark]
        split
        · next hd =>
          rw [if_pos hd] at hno
          obtain ⟨ds, rfl⟩ : ∃ ds, cs = c :: ds := by
            cases cs with
            | nil => cases hd
            | cons d ds => exact ⟨ds, by rw [Option.some.inj hd]⟩
          rw [List.tail_cons] at hno ⊢
          rw [ih ds.length (by simp at hn; omega) (fun hmem => hno ?_) rfl]
          exact List.mem_cons_of_mem _ (List.mem_cons_of_mem _ hmem)
        · rfl
      · rw [quotedLength_plain hcm (hescape true)] at hno ⊢
        rw [quotedLength_plain hcm (hescape false),
          ih cs.length (by simp at hn; omega) (fun hmem => hno (List.mem_cons_of_mem _ hmem)) rfl]

end

/-! ## Escapes -/

/-- A digit is no mark and no backslash. -/
theorem ne_of_digitValue? {base : Nat} {c : Char} (h : (digitValue? base c).isSome = true) :
    c ≠ '\'' ∧ c ≠ '\\' := by
  constructor
  · rintro rfl
    cases h
  · rintro rfl
    cases h

theorem isSome_of_numeral? {base : Nat} {cs : List Char} (h : (numeral? base cs).isSome = true) :
    ∀ c ∈ cs, (digitValue? base c).isSome = true := by
  unfold numeral? at h
  generalize 0 = start at h
  induction cs generalizing start with
  | nil => exact fun _ hc => nomatch hc
  | cons c cs ih =>
    rw [List.foldlM_cons] at h
    cases hc : digitValue? base c with
    | none =>
      rw [hc] at h
      cases h
    | some d =>
      rw [hc] at h
      exact List.forall_mem_cons.2 ⟨by rw [hc]; rfl, ih _ h⟩

theorem ne_of_codePoint? {cs : List Char} {c : Char} (h : codePoint? cs = some c) :
    ∀ x ∈ cs, x ≠ '\'' ∧ x ≠ '\\' := by
  have hdigits {ds : List Char} (h : (numeral? 16 ds).bind charOf? = some c) : ∀ x ∈ ds, x ≠ '\'' ∧ x ≠ '\\' := by
    intro x hx
    obtain ⟨n, hn, -⟩ := Option.bind_eq_some_iff.1 h
    exact ne_of_digitValue? (isSome_of_numeral? (by rw [hn]; rfl) x hx)
  unfold codePoint? at h
  dsimp only at h
  split at h
  · exact List.forall_mem_cons.2 ⟨by decide, hdigits h⟩
  · exact hdigits h

/-- An escape is a character, which may be a mark, and others that are not. -/
theorem exists_of_escape? {cs : List Char} {c : Char} {k : Nat} (h : escape? cs = some (c, k)) :
    ∃ d xs ys, cs = d :: (xs ++ ys) ∧ k = xs.length + 1 ∧ ∀ x ∈ xs, x ≠ '\'' ∧ x ≠ '\\' := by
  cases cs with
  | nil => cases h
  | cons a cs =>
    have hnone (hk : k = 1) : ∃ d xs ys, a :: cs = d :: (xs ++ ys) ∧ k = xs.length + 1 ∧
        ∀ x ∈ xs, x ≠ '\'' ∧ x ≠ '\\' :=
      ⟨a, [], cs, rfl, hk, fun _ hx => nomatch hx⟩
    have hcode {m : Nat} {d : Char} (hm : m ≤ cs.length) (hd : codePoint? (cs.take m) = some d) (hk : k = m + 1) :
        ∃ d xs ys, a :: cs = d :: (xs ++ ys) ∧ k = xs.length + 1 ∧ ∀ x ∈ xs, x ≠ '\'' ∧ x ≠ '\\' := by
      refine ⟨a, cs.take m, cs.drop m, by rw [List.take_append_drop], ?_, ne_of_codePoint? hd⟩
      rw [hk, List.length_take, Nat.min_eq_left hm]
    have hdigits {base : Nat}
        (hk : k = ((cs.take 2).takeWhile fun d => (digitValue? base d).isSome).length + 1) :
        ∃ d xs ys, a :: cs = d :: (xs ++ ys) ∧ k = xs.length + 1 ∧ ∀ x ∈ xs, x ≠ '\'' ∧ x ≠ '\\' := by
      obtain ⟨ys, hys⟩ : ((cs.take 2).takeWhile fun d => (digitValue? base d).isSome) <+: cs :=
        (List.takeWhile_prefix _).trans (List.take_prefix _ _)
      refine ⟨a, _, ys, by rw [hys], hk, ?_⟩
      intro x hx
      exact ne_of_digitValue? (List.all_eq_true.1 List.all_takeWhile x hx)
    rw [escape?.eq_def] at h
    dsimp only at h
    split at h
    -- The letters that stand for one character.
    case h_1 | h_2 | h_3 | h_4 | h_5 =>
      cases h
      exact hnone rfl
    case h_6 | h_7 =>
      simp only [Option.ite_none_right_eq_some, Option.map_eq_some_iff, Prod.mk.injEq] at h
      obtain ⟨hm, d, hd, -, rfl⟩ := h
      exact hcode hm hd rfl
    case h_8 =>
      split at h
      · cases h
        exact hnone rfl
      · obtain ⟨d, -, heq⟩ := Option.map_eq_some_iff.1 h
        cases heq
        exact hdigits rfl
    case h_9 =>
      split at h
      · obtain ⟨d, -, heq⟩ := Option.map_eq_some_iff.1 h
        cases heq
        exact hdigits rfl
      · cases h
        exact hnone rfl

/-- A body with escapes ends where the scan says. -/
theorem quotedLength_of_escapedBody {cs t : List Char} {n : Nat} (h : escapedBody cs = some (t, n)) :
    quotedLength '\'' true cs = n := by
  fun_induction escapedBody cs generalizing t n with
  | case1 | case4 | case5 => cases h
  | case2 rest ih =>
    obtain ⟨⟨text, m⟩, hm, heq⟩ := Option.map_eq_some_iff.1 h
    cases heq
    simp [quotedLength_mark, ih hm]
  | case3 tail htail =>
    cases h
    have hhead : tail.head? ≠ some '\'' := by
      intro hhead
      cases tail with
      | nil => cases hhead
      | cons d ds => exact htail ds (by rw [Option.some.inj hhead])
    simp [quotedLength_mark, hhead]
  | case6 rest c k hescape hc ih =>
    obtain ⟨⟨text, m⟩, hm, heq⟩ := Option.map_eq_some_iff.1 h
    cases heq
    obtain ⟨d, xs, ys, rfl, rfl, hxs⟩ := exists_of_escape? hescape
    have hdrop : (d :: (xs ++ ys)).drop (xs.length + 1) = ys := by simp
    rw [hdrop] at ih hm
    rw [quotedLength_escape, quotedLength_append (fun x hx => ⟨(hxs x hx).1, fun h => (hxs x hx).2 h.1⟩), ih hm]
    omega
  | case7 c rest hdouble hquote hslash ih =>
    obtain ⟨⟨text, m⟩, hm, heq⟩ := Option.map_eq_some_iff.1 h
    cases heq
    rw [quotedLength_plain (fun h => hquote h) (fun h => hslash h.1), ih hm]

/-- The digits of a code point are no marks. -/
theorem exists_of_codePointAt {done k value : Nat} {cs : List Char} {c : Char} {n : Nat}
    (h : codePointAt done k value cs = .ok (c, n)) :
    ∃ xs ys, cs = xs ++ ys ∧ xs.length = k ∧ ∀ x ∈ xs, x ≠ '\'' := by
  induction k generalizing done value cs with
  | zero => exact ⟨[], cs, rfl, rfl, fun _ hx => nomatch hx⟩
  | succ k ih =>
    cases cs with
    | nil => cases h
    | cons d cs =>
      rw [codePointAt] at h
      split at h
      · next hd =>
        obtain ⟨xs, ys, rfl, hlength, hxs⟩ := ih h
        refine ⟨d :: xs, ys, rfl, by rw [List.length_cons, hlength], List.forall_mem_cons.2 ⟨?_, hxs⟩⟩
        exact (ne_of_digitValue? (by rw [hd]; rfl)).1
      · cases h

/-- A body with code points ends where the scan says. -/
theorem quotedLength_of_unicodeBody {done : Nat} {cs t : List Char} {n : Nat}
    (h : unicodeBody done cs = .ok (t, n)) : done + quotedLength '\'' false cs = n := by
  have hnot {x : Char} : ¬ (x = '\\' ∧ false = true) := fun h => nomatch h.2
  fun_induction unicodeBody done cs generalizing t n with
  | case1 => cases h
  | case2 done rest ih =>
    obtain ⟨⟨text, m⟩, hm, heq⟩ := bind_eq_ok h
    cases heq
    simp [quotedLength_mark, ← ih hm]
    omega
  | case3 done tail htail =>
    cases h
    have hhead : tail.head? ≠ some '\'' := by
      intro hhead
      cases tail with
      | nil => cases hhead
      | cons d ds => exact htail ds (by rw [Option.some.inj hhead])
    simp [quotedLength_mark, hhead]
  | case4 done rest ih =>
    obtain ⟨⟨text, m⟩, hm, heq⟩ := bind_eq_ok h
    cases heq
    rw [quotedLength_plain (by decide) hnot, quotedLength_plain (by decide) hnot, ← ih hm]
    omega
  | case5 done rest ih =>
    obtain ⟨⟨c, _⟩, hcode, hrest⟩ := bind_eq_ok h
    obtain ⟨⟨text, m⟩, hm, heq⟩ := bind_eq_ok hrest
    cases heq
    obtain ⟨xs, ys, rfl, hlength, hxs⟩ := exists_of_codePointAt hcode
    rw [List.drop_left' hlength] at ih hm
    rw [quotedLength_plain (by decide) hnot, quotedLength_plain (by decide) hnot,
      quotedLength_append (fun x hx => ⟨hxs x hx, hnot⟩), ← ih hm]
    omega
  | case6 done rest _ _ ih =>
    obtain ⟨⟨c, _⟩, hcode, hrest⟩ := bind_eq_ok h
    obtain ⟨⟨text, m⟩, hm, heq⟩ := bind_eq_ok hrest
    cases heq
    obtain ⟨xs, ys, rfl, hlength, hxs⟩ := exists_of_codePointAt hcode
    rw [List.drop_left' hlength] at ih hm
    rw [quotedLength_plain (by decide) hnot, quotedLength_append (fun x hx => ⟨hxs x hx, hnot⟩), ← ih hm]
    omega
  | case7 done c rest _ hquote _ _ _ ih =>
    obtain ⟨⟨text, m⟩, hm, heq⟩ := bind_eq_ok h
    cases heq
    rw [quotedLength_plain hquote hnot, ← ih hm]
    omega

/-! ## Dollar signs -/

/-- A character that the scan allows in the tag of a dollar quotation. -/
def isPlainTag (c : Char) : Bool := c.isAlphanum || c = '_'

/-- The tag is one for the scan, too: it has ASCII characters only and starts with no digit. -/
def hasPlainTag : Option String → Bool
  | none => true
  | some tag => tag.toList.all isPlainTag && !(tag.toList.head?.map Char.isDigit).getD false

theorem isAlpha_iff {c : Char} : c.isAlpha = true ↔ 'A' ≤ c ∧ c ≤ 'Z' ∨ 'a' ≤ c ∧ c ≤ 'z' := by
  have hupper : c.isUpper = true ↔ 'A' ≤ c ∧ c ≤ 'Z' := decide_eq_true_iff
  have hlower : c.isLower = true ↔ 'a' ≤ c ∧ c ≤ 'z' :=
    Bool.and_eq_true_iff.trans (and_congr decide_eq_true_iff decide_eq_true_iff)
  exact Bool.or_eq_true_iff.trans (or_congr hupper hlower)

theorem isAlphabetic_of_isAlpha {c : Char} (h : c.isAlpha = true) : Text.isAlphabetic c = true := by
  have hascii : c.toNat < 0x80 := by
    have hle : c ≤ 'z' := by
      rcases isAlpha_iff.1 h with ⟨-, hle⟩ | ⟨-, hle⟩
      · exact Char.le_trans hle (by decide)
      · exact hle
    exact Nat.lt_of_le_of_lt (UInt32.le_iff_toNat_le.1 hle) (by decide)
  rw [Text.isAlphabetic, if_pos hascii, h]

theorem isTagPart_of_isPlainTag {c : Char} (h : isPlainTag c = true) : isTagPart c = true := by
  rcases Bool.or_eq_true_iff.1 h with halphanum | hunderscore
  · rcases Bool.or_eq_true_iff.1 halphanum with halpha | hdigit
    · simp [isTagPart, isAlphabetic_of_isAlpha halpha]
    · exact Signature.isTagPart_of_isDigit hdigit
  · rw [of_decide_eq_true hunderscore]
    decide

/-- What the scan makes of a dollar sign with a tag behind it. -/
theorem dollarLength_tag {tag rest : List Char} (htag : ∀ c ∈ tag, isPlainTag c = true)
    (hdigit : (tag.head?.map Char.isDigit).getD false = false) :
    dollarLength (tag ++ '$' :: rest) =
      match Text.findPiece ('$' :: tag ++ ['$']) rest with
      | some n => some (tag.length + 1 + n + (tag.length + 2))
      | none => some (tag ++ '$' :: rest).length := by
  have hhead : ((tag ++ '$' :: rest).head?.map Char.isDigit).getD false = false := by
    cases tag with
    | nil => rfl
    | cons c tag => exact hdigit
  have htake : (tag ++ '$' :: rest).takeWhile (fun c => c.isAlphanum || c = '_') = tag := by
    change (tag ++ '$' :: rest).takeWhile isPlainTag = tag
    rw [List.takeWhile_append_of_pos htag, List.takeWhile_cons_of_neg (by decide), List.append_nil]
  rw [dollarLength, hhead, if_neg Bool.false_ne_true, htake]
  dsimp only
  rw [List.drop_left]
  rfl

/-- A dollar quotation ends where the scan says, if the tag is one for the scan. -/
theorem dollarLength_of_dollarStep {cs : List Char} {tag : Option String} {value : String} {k : Nat}
    (h : dollarStep cs = .ok (.dollar tag value, k)) (htag : hasPlainTag tag = true) :
    dollarLength cs = some k := by
  by_cases huntagged : ∃ rest, cs = '$' :: rest
  · obtain ⟨rest, rfl⟩ := huntagged
    have htag : dollarLength ([] ++ '$' :: rest) = _ := dollarLength_tag (fun _ hc => nomatch hc) rfl
    rw [dollarStep, Signature.untaggedBody_eq] at h
    rw [List.nil_append] at htag
    rw [htag]
    cases hpiece : Text.findPiece ['$', '$'] rest with
    | none =>
      rw [hpiece] at h
      cases h
    | some n =>
      rw [hpiece] at h
      cases h
      rw [List.singleton_append, hpiece]
      simp
      omega
  · rw [dollarStep_of_ne (fun rest hrest => huntagged ⟨rest, hrest⟩), taggedStep] at h
    dsimp only at h
    generalize hname : cs.takeWhile isTagPart = name at h
    obtain ⟨rest', hcs⟩ : name <+: cs := hname ▸ List.takeWhile_prefix _
    have hdrop : cs.drop name.length = rest' := by rw [← hcs, List.drop_left]
    rw [hdrop] at h
    split at h
    · next rest =>
      split at h
      · next n hpiece =>
        cases h
        obtain ⟨c, name, rfl⟩ : ∃ c tail, name = c :: tail := by
          cases name with
          | nil => exact absurd ⟨rest, hcs.symm⟩ huntagged
          | cons c name => exact ⟨c, name, rfl⟩
        obtain ⟨hplain, hdigit⟩ : (∀ d ∈ c :: name, isPlainTag d = true) ∧ c.isDigit = false := by
          simpa [hasPlainTag] using htag
        rw [← hcs, dollarLength_tag hplain hdigit, hpiece]
      · cases h
    · cases h

/-- The scan opens no quotation at the dollar sign of a parameter. -/
theorem dollarLength_of_placeholder {cs : List Char} {text : String} {k : Nat}
    (h : dollarStep cs = .ok (.placeholder text, k)) : dollarLength cs = none := by
  have hdollar : ¬ isTagPart '$' = true := by decide
  -- A tag with a dollar sign behind it would have been read as the start of a quotation.
  have hnone (tag rest : List Char) (htag : ∀ c ∈ tag, isTagPart c = true) (hcs : cs = tag ++ '$' :: rest) :
      False := by
    subst hcs
    cases tag with
    | nil =>
      rw [List.nil_append, dollarStep] at h
      split at h
      · cases h
      · cases h
    | cons c tag =>
      have hc : c ≠ '$' := by
        rintro rfl
        exact hdollar (htag _ List.mem_cons_self)
      rw [dollarStep_of_ne (by rintro rest ⟨⟩; exact hc rfl), taggedStep, List.takeWhile_append_of_pos htag,
        List.takeWhile_cons_of_neg hdollar, List.append_nil] at h
      simp only [List.drop_left] at h
      split at h
      · cases h
      · cases h
  unfold dollarLength
  split
  · rfl
  · dsimp only
    split
    · next body hbody =>
      refine (hnone (cs.takeWhile isPlainTag) body ?_ ?_).elim
      · intro c hc
        exact isTagPart_of_isPlainTag (List.all_eq_true.1 List.all_takeWhile c hc)
      · rw [← hbody]
        exact (List.prefix_iff_eq_append.1 (List.takeWhile_prefix _)).symm
    · rfl

/-! ## Comments -/

/-- A comment goes up to the first line feed or carriage return, or to the end of the text. -/
theorem cases_of_lineComment {body rest : List Char} (h : lineComment (body ++ rest) = body.length) :
    (∀ c ∈ body, c ≠ '\n') ∧ rest = [] ∨
      ∃ init nl, body = init ++ [nl] ∧ (nl = '\n' ∨ nl = '\r') ∧ ∀ c ∈ init, c ≠ '\n' := by
  induction body with
  | nil => exact .inl ⟨(fun _ hc => nomatch hc), eq_nil_of_lineComment h⟩
  | cons c body ih =>
    rw [List.cons_append, lineComment_cons, List.length_cons] at h
    split at h
    · next hc =>
      obtain rfl := List.eq_nil_of_length_eq_zero (Nat.succ.inj h).symm
      exact .inr ⟨[], c, rfl, hc, fun _ hc => nomatch hc⟩
    · next hc =>
      rcases ih (Nat.succ.inj h) with ⟨hbody, hrest⟩ | ⟨init, nl, rfl, hnl, hinit⟩
      · exact .inl ⟨List.forall_mem_cons.2 ⟨fun h => hc (.inl h), hbody⟩, hrest⟩
      · exact .inr ⟨c :: init, nl, rfl, hnl, List.forall_mem_cons.2 ⟨fun h => hc (.inl h), hinit⟩⟩

/-- A comment up to the end of its line ends for the scan where it ends, or behind the line feed that follows it. -/
theorem lineComment_end {body rest : List Char} (h : lineComment (body ++ rest) = body.length)
    (hend : body.getLast? = some '\n' ∨ rest = [] ∨ ∃ rest', rest = '\n' :: rest') :
    min (((body ++ rest).takeWhile (· ≠ '\n')).length + 1) (body ++ rest).length = body.length ∨
      (∃ rest', rest = '\n' :: rest') ∧
        min (((body ++ rest).takeWhile (· ≠ '\n')).length + 1) (body ++ rest).length = body.length + 1 := by
  have hall {cs : List Char} (hcs : ∀ c ∈ cs, c ≠ '\n') : ∀ c ∈ cs, decide (c ≠ '\n') = true :=
    fun c hc => decide_eq_true (hcs c hc)
  have hstop (cs : List Char) : ('\n' :: cs).takeWhile (· ≠ '\n') = [] :=
    List.takeWhile_cons_of_neg (by decide)
  rcases cases_of_lineComment h with ⟨hbody, rfl⟩ | ⟨init, nl, rfl, rfl | rfl, hinit⟩
  · left
    rw [List.append_nil, List.takeWhile_eq_self_iff.2 (hall hbody)]
    omega
  · left
    rw [List.append_assoc, List.takeWhile_append_of_pos (hall hinit), List.singleton_append, hstop]
    simp
  · have hreturn : ∀ c ∈ init ++ ['\r'], c ≠ '\n' := by
      intro c hc
      rcases List.mem_append.1 hc with hc | hc
      · exact hinit c hc
      · rw [List.mem_singleton.1 hc]
        decide
    rcases hend with hlast | rfl | ⟨rest', rfl⟩
    · rw [List.getLast?_concat] at hlast
      exact absurd (Option.some.inj hlast) (by decide)
    · left
      rw [List.append_nil, List.takeWhile_eq_self_iff.2 (hall hreturn)]
      omega
    · refine .inr ⟨⟨rest', rfl⟩, ?_⟩
      have hlong : (init ++ ['\r'] ++ '\n' :: rest').length = (init ++ ['\r']).length + (rest'.length + 1) :=
        List.length_append
      rw [List.takeWhile_append_of_pos (hall hreturn), hstop, List.append_nil, hlong]
      omega

end IntoClause
end Routine
