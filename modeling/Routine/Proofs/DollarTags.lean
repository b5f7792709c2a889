import Mathlib.Data.Fintype.Pigeonhole
import Routine.Proofs.Cuts
import Routine.Signature

/-!
# Tags of dollar quotations

A body is quoted with a tag that does not occur in it. Some tag is always free, as a body has fewer places than
the tags that are tried (`contains_tagFor`). That does not make the quotation one token yet: the end of a body and
the tag behind it can spell the tag together, at a place before its own. They do so exactly when the body ends in
all of the tag but the last dollar sign (`findPiece_tagFor_iff`).
-/

namespace Routine

/-! ## Pieces of text -/

namespace Text

theorem hasPiece_iff {piece cs : List Char} : hasPiece piece cs = true ↔ piece <:+: cs := by
  induction cs with
  | nil => simp [hasPiece, findPiece]
  | cons c cs ih =>
    rw [List.infix_cons_iff, ← ih, hasPiece, findPiece]
    by_cases hstart : piece.isPrefixOf (c :: cs) = true
    · simp [hstart, List.isPrefixOf_iff_prefix.1 hstart]
    · have hnot : ¬ piece <+: c :: cs := mt List.isPrefixOf_iff_prefix.2 hstart
      simp [hstart, hnot, hasPiece]

theorem lt_of_findPiece {piece cs : List Char} {n : Nat} (h : findPiece piece cs = some n)
    (hpiece : piece ≠ []) : n < cs.length := by
  obtain ⟨tail, htail⟩ := Sql.Lexer.findPiece_append h
  refine Nat.lt_of_not_le ?_
  intro hle
  rw [List.drop_eq_nil_iff.2 hle] at htail
  exact hpiece (List.append_eq_nil_iff.1 htail.symm).1

theorem findPiece_of_isPrefix {piece cs : List Char} (h : piece <+: cs) : findPiece piece cs = some 0 := by
  cases cs with
  | nil =>
    obtain rfl := List.prefix_nil.1 h
    rfl
  | cons c cs => rw [findPiece, if_pos (List.isPrefixOf_iff_prefix.2 h)]

/-- A piece behind a text is found there first, unless some end of the text starts an occurrence of its own. -/
theorem findPiece_append_iff (piece cs rest : List Char) :
    findPiece piece (cs ++ (piece ++ rest)) = some cs.length ↔
      ∀ part, part ≠ [] → part <:+ cs → ¬ piece <+: part ++ piece := by
  induction cs with
  | nil =>
    refine iff_of_true (findPiece_of_isPrefix (List.prefix_append _ _)) ?_
    intro part hne hpart
    exact absurd (List.suffix_nil.1 hpart) hne
  | cons c cs ih =>
    -- What follows the piece has no part in an occurrence that starts before it.
    have hstart : piece.isPrefixOf (c :: (cs ++ (piece ++ rest))) = true ↔ piece <+: c :: cs ++ piece := by
      rw [List.isPrefixOf_iff_prefix, ← List.cons_append, ← List.append_assoc]
      refine ⟨fun h => ?_, fun h => h.trans (List.prefix_append _ _)⟩
      exact List.prefix_of_prefix_length_le h (List.prefix_append _ _) (by simp; omega)
    rw [List.cons_append, findPiece]
    split
    · next hpre =>
      refine iff_of_false (by simp) ?_
      intro hall
      exact hall (c :: cs) (List.cons_ne_nil _ _) List.suffix_rfl (hstart.1 hpre)
    · next hpre =>
      rw [List.length_cons, Option.map_eq_some_iff]
      simp only [Nat.add_right_cancel_iff, exists_eq_right, ih]
      refine ⟨fun hall part hne hpart => ?_, fun hall part hne hpart => ?_⟩
      · rcases List.suffix_cons_iff.1 hpart with rfl | hpart
        · exact mt hstart.2 hpre
        · exact hall part hne hpart
      · exact hall part hne (hpart.trans (List.suffix_cons c cs))

end Text

namespace Signature

open Sql (Lexeme Token)
open Sql.Lexer

/-! ## Numbered tags -/

/-- What stands between the dollar signs of a numbered tag. -/
def tagName : Nat → List Char
  | 0 => "body".toList
  | n + 1 => "body".toList ++ Nat.toDigits 10 (n + 1)

theorem toList_numberedTag (n : Nat) : (numberedTag n).toList = '$' :: (tagName n ++ ['$']) := by
  cases n with
  | zero => rfl
  | succ n =>
    have hdigits : (toString (n + 1)).toList = Nat.toDigits 10 (n + 1) := by
      show (String.ofList _).toList = _
      exact String.toList_ofList
    rw [numberedTag, String.toList_append, String.toList_append, hdigits, tagName]
    simp

theorem tagName_injective : Function.Injective tagName := by
  have hdigits {m n : Nat} (h : Nat.toDigits 10 m = Nat.toDigits 10 n) : m = n := by
    rw [← Nat.ofDigitChars_ten_toDigits (n := m), h, Nat.ofDigitChars_ten_toDigits]
  intro m n h
  match m, n with
  | 0, 0 => rfl
  | 0, n + 1 => exact absurd (List.self_eq_append_right.1 h) Nat.toDigits_ne_nil
  | m + 1, 0 => exact absurd (List.append_right_eq_self.1 h) Nat.toDigits_ne_nil
  | m + 1, n + 1 => exact hdigits (List.append_cancel_left h)

theorem isTagPart_of_isDigit {c : Char} (h : c.isDigit = true) : isTagPart c = true := by
  have hascii : c.toNat < 0x80 := by
    have hle : c.val ≤ '9'.val := by simpa using (Bool.and_eq_true_iff.1 h).2
    exact Nat.lt_of_le_of_lt (UInt32.le_iff_toNat_le.1 hle) (by decide)
  simp [isTagPart, Text.isNumeric, Text.isDecimalDigit, hascii, h]

theorem isTagPart_tagName (n : Nat) : ∀ c ∈ tagName n, isTagPart c = true := by
  have hbody : ∀ c ∈ "body".toList, isTagPart c = true := by
    have hall : ("body".toList.all isTagPart) = true := by decide
    exact List.all_eq_true.1 hall
  cases n with
  | zero => exact hbody
  | succ n =>
    intro c hc
    rcases List.mem_append.1 hc with hc | hc
    · exact hbody c hc
    · exact isTagPart_of_isDigit (Nat.isDigit_of_mem_toDigits (by decide) (by decide) hc)

theorem dollar_not_mem {name : List Char} (h : ∀ c ∈ name, isTagPart c = true) : '$' ∉ name := by
  intro hmem
  exact absurd (h _ hmem) (by decide)

/-- Two tags at the same place are the same. -/
theorem eq_of_tag_append {m n : Nat} {xs ys : List Char}
    (h : (numberedTag m).toList ++ xs = (numberedTag n).toList ++ ys) : m = n := by
  have hname (k : Nat) (zs : List Char) :
      (((numberedTag k).toList ++ zs).tail.takeWhile isTagPart) = tagName k := by
    rw [toList_numberedTag]
    have hdollar : ¬ isTagPart '$' = true := by decide
    simp [List.takeWhile_append_of_pos (isTagPart_tagName k), hdollar]
  refine tagName_injective ?_
  rw [← hname m xs, h, hname]

/-! ## A free tag -/

/-- A body does not have room for all the tags that are tried. -/
theorem exists_free_tag (body : String) :
    ∃ n ≤ body.toList.length, Text.contains body (numberedTag n) = false := by
  refine Classical.byContradiction ?_
  intro hnone
  have hplace (n : Fin (body.toList.length + 1)) : ∃ i : Fin body.toList.length, ∃ tail,
      body.toList.drop i = (numberedTag n).toList ++ tail := by
    have hcontains : Text.contains body (numberedTag n) = true := by
      refine Bool.not_eq_false _ ▸ ?_
      exact fun hfree => hnone ⟨n, Nat.le_of_lt_succ n.isLt, hfree⟩
    obtain ⟨i, hi⟩ := Option.isSome_iff_exists.1 hcontains
    have hpiece : (numberedTag n).toList ≠ [] := by
      rw [toList_numberedTag]
      exact List.cons_ne_nil _ _
    exact ⟨⟨i, Text.lt_of_findPiece hi hpiece⟩, findPiece_append hi⟩
  choose place tail htail using hplace
  obtain ⟨m, n, hne, hsame⟩ := Fintype.exists_ne_map_eq_of_card_lt place (by simp)
  have htags : (numberedTag m).toList ++ tail m = (numberedTag n).toList ++ tail n := by
    rw [← htail, ← htail, hsame]
  exact hne (Fin.ext (eq_of_tag_append htags))

/-- The search ends with the first free tag, if it is among those that are tried. -/
theorem freeTag_spec {body : String} {fuel n m : Nat} (hfree : Text.contains body (numberedTag m) = false)
    (hle : n ≤ m) (hlt : m < n + fuel) :
    Text.contains body (freeTag body fuel n) = false ∧ ∃ k, freeTag body fuel n = numberedTag k := by
  induction fuel generalizing n with
  | zero => omega
  | succ fuel ih =>
    rw [freeTag]
    split
    · next htaken =>
      have hne : n ≠ m := by
        rintro rfl
        exact absurd htaken (by rw [hfree]; decide)
      exact ih (by omega) (by omega)
    · next hfirst => exact ⟨Bool.eq_false_iff.2 hfirst, n, rfl⟩

/-- The tag of a body does not occur in it. -/
theorem contains_tagFor (body : String) : Text.contains body (tagFor body) = false := by
  rw [tagFor]
  split
  · obtain ⟨m, hm, hfree⟩ := exists_free_tag body
    exact (freeTag_spec hfree (Nat.zero_le m) (by omega)).1
  · next hplain => exact Bool.eq_false_iff.2 hplain

/-- The tag of a body is a name between dollar signs, which can be empty. -/
theorem exists_name_tagFor (body : String) :
    ∃ name, (tagFor body).toList = '$' :: (name ++ ['$']) ∧ ∀ c ∈ name, isTagPart c = true := by
  rw [tagFor]
  split
  · obtain ⟨m, hm, hfree⟩ := exists_free_tag body
    obtain ⟨-, k, hk⟩ := freeTag_spec hfree (Nat.zero_le m) (show m < 0 + (body.toList.length + 1) by omega)
    exact ⟨tagName k, hk ▸ toList_numberedTag k, isTagPart_tagName k⟩
  · exact ⟨[], rfl, fun _ hc => nomatch hc⟩

/-! ## The quotation -/

theorem untaggedBody_eq (cs : List Char) :
    untaggedBody cs = (Text.findPiece ['$', '$'] cs).map fun n => (cs.take n, n + 2) := by
  fun_induction untaggedBody cs with
  | case1 => rfl
  | case2 => simp [Text.findPiece]
  | case3 c cs hc ih =>
    have hnot : ['$', '$'].isPrefixOf (c :: cs) = false := by
      rw [← Bool.not_eq_true, List.isPrefixOf_iff_prefix]
      rintro ⟨tail, htail⟩
      obtain ⟨rfl, rfl⟩ := List.cons.inj htail
      exact hc tail rfl rfl
    rw [Text.findPiece, hnot, if_neg Bool.false_ne_true, ih]
    cases Text.findPiece ['$', '$'] cs with
    | none => rfl
    | some n => rfl

/-- Behind a text without its tag, the tag is found unless the text ends in all of the tag but the last sign. -/
theorem findPiece_tag_iff {name body : List Char} (hname : '$' ∉ name)
    (hfree : Text.hasPiece ('$' :: (name ++ ['$'])) body = false) (rest : List Char) :
    Text.findPiece ('$' :: (name ++ ['$'])) (body ++ ('$' :: (name ++ ['$']) ++ rest)) = some body.length ↔
      ¬ '$' :: name <:+ body := by
  rw [Text.findPiece_append_iff]
  refine ⟨fun hall hend => ?_, fun hend part hne hpart hpre => ?_⟩
  · refine hall ('$' :: name) (List.cons_ne_nil _ _) hend ?_
    exact ⟨name ++ ['$'], by simp⟩
  · -- The tag starts with the part, and no sign stands inside its name: the part is the tag up to its last sign.
    obtain ⟨c, part, rfl⟩ := List.exists_cons_of_ne_nil hne
    obtain ⟨tail, htail⟩ := hpre
    obtain ⟨rfl, hrest⟩ := List.cons.inj htail
    have hname' : name ++ '$' :: tail = part ++ '$' :: (name ++ ['$']) := by simpa using hrest
    rcases List.append_eq_append_iff.1 hname' with ⟨more, rfl, hmore⟩ | ⟨more, rfl, hmore⟩
    · cases more with
      | nil =>
        rw [List.append_nil] at hpart
        exact hend hpart
      | cons d more =>
        obtain ⟨rfl, -⟩ := List.cons.inj hmore
        have hinside : '$' :: (name ++ ['$']) <+: '$' :: (name ++ '$' :: more) := ⟨more, by simp⟩
        have hpiece := Text.hasPiece_iff.2 (hinside.isInfix.trans hpart.isInfix)
        exact absurd hpiece (by rw [hfree]; decide)
    · cases more with
      | nil =>
        rw [List.append_nil] at hend
        exact hend hpart
      | cons d more =>
        obtain ⟨rfl, -⟩ := List.cons.inj hmore
        exact hname (by simp)

/-- A dollar sign and a tag start a quotation up to the next place of the tag. -/
theorem dollarStep_tag_iff {name cs : List Char} {answer : Token × Nat}
    (hname : ∀ c ∈ name, isTagPart c = true) :
    dollarStep (name ++ '$' :: cs) = .ok answer ↔ ∃ n, Text.findPiece ('$' :: (name ++ ['$'])) cs = some n ∧
      (.dollar (if name.isEmpty then none else some (String.ofList name)) (String.ofList (cs.take n)),
        name.length + 1 + n + (name.length + 2)) = answer := by
  obtain _ | ⟨c, name⟩ := name
  · rw [List.nil_append, dollarStep, untaggedBody_eq]
    dsimp only [List.nil_append]
    cases Text.findPiece ['$', '$'] cs with
    | none => simp
    | some n => simp [Nat.add_comm, Nat.add_left_comm]
  · have hc : c ≠ '$' := by
      rintro rfl
      exact dollar_not_mem hname List.mem_cons_self
    have hdollar : ¬ isTagPart '$' = true := by decide
    have htag : (c :: name ++ '$' :: cs).takeWhile isTagPart = c :: name := by
      rw [List.takeWhile_append_of_pos hname, List.takeWhile_cons, if_neg hdollar, List.append_nil]
    rw [dollarStep_of_ne (by rintro rest ⟨⟩; exact hc rfl), taggedStep]
    rw [htag]
    simp only [List.drop_left]
    rw [List.cons_append]
    cases Text.findPiece ('$' :: (c :: name ++ ['$'])) cs with
    | none => simp
    | some n => simp

/-- A body in its tag. -/
def quotation (body : String) : List Char :=
  (tagFor body).toList ++ body.toList ++ (tagFor body).toList

theorem head?_quotation (body : String) : (quotation body).head? = some '$' := by
  obtain ⟨name, htag, -⟩ := exists_name_tagFor body
  rw [quotation, htag]
  rfl

/-- The place of its tag behind a body is the first, whatever comes after it, unless the body ends in all of the
tag but its last sign. -/
theorem findPiece_tagFor_iff (body : String) (rest : List Char) :
    Text.findPiece (tagFor body).toList (body.toList ++ ((tagFor body).toList ++ rest)) =
        some body.toList.length ↔
      ¬ (tagFor body).toList.dropLast <:+ body.toList := by
  obtain ⟨name, htag, hname⟩ := exists_name_tagFor body
  have hfree : Text.hasPiece ('$' :: (name ++ ['$'])) body.toList = false := by
    rw [← htag]
    exact contains_tagFor body
  have hdrop : ('$' :: (name ++ ['$'])).dropLast = '$' :: name := by
    rw [← List.cons_append, List.dropLast_concat]
  rw [htag, hdrop]
  exact findPiece_tag_iff (dollar_not_mem hname) hfree rest

/-- A body in its tag is one token exactly when the place of the tag behind it is the first. -/
theorem starts_quotation_iff (body : String) (rest : List Char) :
    (∃ name, Lexeme.Starts ⟨.dollar name body, quotation body⟩ rest) ↔
      Text.findPiece (tagFor body).toList (body.toList ++ ((tagFor body).toList ++ rest)) =
        some body.toList.length := by
  obtain ⟨name, htag, hname⟩ := exists_name_tagFor body
  have hsource : quotation body = '$' :: (name ++ '$' :: (body.toList ++ '$' :: (name ++ ['$']))) := by
    simp [quotation, htag]
  have hstarts (label : Option String) : Lexeme.Starts ⟨.dollar label body, quotation body⟩ rest ↔
      dollarStep (name ++ '$' :: (body.toList ++ ('$' :: (name ++ ['$']) ++ rest))) =
        .ok (.dollar label body, name.length + 1 + body.toList.length + (name.length + 2)) := by
    have hlength : (name ++ '$' :: (body.toList ++ '$' :: (name ++ ['$']))).length =
        name.length + 1 + body.toList.length + (name.length + 2) := by
      simp
      omega
    rw [← hlength]
    constructor
    · rintro ⟨c, cs, hcons, hstep⟩
      obtain ⟨rfl, rfl⟩ := List.cons.inj (hsource.symm.trans hcons)
      simpa [step] using hstep
    · intro hstep
      exact ⟨'$', _, hsource, by simpa [step] using hstep⟩
  simp only [hstarts, dollarStep_tag_iff hname, htag]
  constructor
  · rintro ⟨label, n, hn, heq⟩
    have hcount := (Prod.mk.inj heq).2
    rw [hn, show n = body.toList.length by omega]
  · intro hfind
    exact ⟨if name.isEmpty then none else some (String.ofList name), _, hfind, by simp⟩

end Signature

/-- **A body is delimited by its tag** if it does not end in all of the tag but the last dollar sign, and then
only: the first place of the tag in the body and the tag behind it is right after the body. This is what makes the
body between two tags one token that holds the body, whatever comes next. -/
theorem tag_delimits_its_body_iff (body : String) :
    (Text.findPiece (Signature.tagFor body).toList (body.toList ++ (Signature.tagFor body).toList) =
          some body.toList.length ↔
        ¬ (Signature.tagFor body).toList.dropLast <:+ body.toList) ∧
      ((∀ rest, ∃ name, Sql.Lexeme.Starts ⟨.dollar name body, Signature.quotation body⟩ rest) ↔
        ¬ (Signature.tagFor body).toList.dropLast <:+ body.toList) := by
  refine ⟨?_, fun hstarts => ?_, fun hend rest => ?_⟩
  · have hfirst := Signature.findPiece_tagFor_iff body []
    rwa [List.append_nil] at hfirst
  · exact (Signature.findPiece_tagFor_iff body []).1 ((Signature.starts_quotation_iff body []).1 (hstarts []))
  · exact (Signature.starts_quotation_iff body rest).2 ((Signature.findPiece_tagFor_iff body rest).2 hend)

/-- A dollar sign at the end of a body and the one that the tag starts with are taken for the tag. -/
theorem tag_starts_inside_its_body :
    ¬ ∀ body : String,
      Text.findPiece (Signature.tagFor body).toList (body.toList ++ (Signature.tagFor body).toList) =
        some body.toList.length := by
  intro hall
  exact absurd (hall "a$") (by decide)

end Routine
