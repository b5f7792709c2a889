import Routine.Proofs.ByteLoops
import Routine.Proofs.PassedOver

/-!
# Skipping by bytes

Quotations and comments are skipped byte by byte: the index jumps over an escaped byte and over a doubled mark, and a
quotation that is never closed ends with the text. An escaped character may have more than one byte, and then the jump
ends inside it; the bytes that are left of it are neither marks nor backslashes. Each skip ends where the scan of
characters says (`quotedLength`, `dollarLength` and, for all that can be skipped, `opaqueLength`).
-/

namespace Routine
namespace ByteScan

open Text
open Sql (isWordChar)
open IntoClause (quotedLength dollarLength opaqueLength opensEscapes endsInWord isPlainTag)

variable {text : String} {pre cs : List Char} {c u : Char} {i : Nat}

/-! ## Quotations -/

/-- A byte of a quotation. -/
def quotedRound (text : String) (mark : Char) (escapes : Bool) (i : Nat) (_ : Unit) : Checked (Round Unit Nat) := do
  let b ← byte text i
  if b = '\\' ∧ escapes = true then return .next (i + 2) ()
  else if b = mark then
    if byte? text (i + 1) = some mark then return .next (i + 2) () else return .done (i + 1)
  else return .next (i + 1) ()

/-- The end of a quotation, from an index inside it. -/
def quotedEnd (text : String) (mark : Char) (escapes : Bool) (i : Nat) : Checked Nat :=
  loop text (quotedRound text mark escapes) (fun _ _ => text.utf8ByteSize) i ()

/-- The end of a quotation that starts at an index. -/
def skipQuoted (text : String) (mark : Char) (escapes : Bool) (start : Nat) : Checked Nat :=
  quotedEnd text mark escapes (start + 1)

section

variable {mark : Char} {escapes : Bool}

theorem quotedRound_eq (hbyte : byte text i = .ok u) :
    quotedRound text mark escapes i () =
      if u = '\\' ∧ escapes = true then .ok (.next (i + 2) ())
      else if u = mark then
        if byte? text (i + 1) = some mark then .ok (.next (i + 2) ()) else .ok (.done (i + 1))
      else .ok (.next (i + 1) ()) := by
  rw [quotedRound, hbyte]
  rfl

/-- From inside a character that is no mark and escapes nothing, the rest of its bytes is passed over. -/
theorem quotedEnd_plain (hascii : mark.toNat < 0x80) (htext : text.toList = pre ++ c :: cs) {k : Nat}
    (hk : k ≤ c.utf8Size) (hescape : k < c.utf8Size → ¬ (c = '\\' ∧ escapes = true))
    (hmark : k < c.utf8Size → c ≠ mark) :
    quotedEnd text mark escapes (byteLength pre + k) = quotedEnd text mark escapes (byteLength (pre ++ [c])) := by
  refine loop_inside htext hk fun j hkj hj => ?_
  obtain ⟨u, hbyte, hlooks⟩ := exists_byte htext hj
  have hk' : k < c.utf8Size := Nat.lt_of_le_of_lt hkj hj
  have hescape' : ¬ (u = '\\' ∧ escapes = true) := by
    rw [hlooks.eq_iff (by decide)]
    exact hescape hk'
  rw [quotedRound_eq hbyte, if_neg hescape', if_neg (mt (hlooks.eq_iff hascii).1 (hmark hk'))]

/-- A backslash takes the whole character behind it along. -/
theorem quotedEnd_escape (hascii : mark.toNat < 0x80) {d : Char} (htext : text.toList = pre ++ '\\' :: d :: cs) :
    quotedEnd text mark true (byteLength pre) = quotedEnd text mark true (byteLength (pre ++ ['\\', d])) := by
  have hround : quotedRound text mark true (byteLength pre) () = .ok (.next (byteLength pre + 2) ()) := by
    rw [quotedRound_eq (byte_of_lt htext (by decide)), if_pos ⟨rfl, rfl⟩]
  have hjump : byteLength pre + 2 = byteLength (pre ++ ['\\']) + 1 := by
    rw [byteLength_concat]
    rfl
  have hnext : text.toList = (pre ++ ['\\']) ++ d :: cs := behind htext
  -- The jump may end inside the character only if that is not of ASCII.
  have hinside {a : Char} (ha : a.toNat < 0x80) (h : 1 < d.utf8Size) : d ≠ a := by
    rintro rfl
    rw [utf8Size_of_lt ha] at h
    exact absurd h (Nat.lt_irrefl 1)
  rw [quotedEnd, loop_next (lt_utf8ByteSize htext) hround (by omega), hjump]
  refine (quotedEnd_plain hascii hnext d.utf8Size_pos ?_ (hinside hascii)).trans (by rw [List.append_assoc]; rfl)
  exact fun h hd => hinside (by decide) h hd.1

theorem quotedEnd_mark (hascii : mark.toNat < 0x80) (hmark : '\\' ≠ mark) (htext : text.toList = pre ++ mark :: cs) :
    quotedEnd text mark escapes (byteLength pre) =
      if cs.head? = some mark then quotedEnd text mark escapes (byteLength (pre ++ [mark, mark]))
      else .ok (byteLength (pre ++ [mark])) := by
  have hround : quotedRound text mark escapes (byteLength pre) () = _ := quotedRound_eq (byte_of_lt htext hascii)
  rw [if_neg fun h => hmark h.1.symm, if_pos rfl, if_congr (byte?_next htext hascii hascii) rfl rfl] at hround
  split
  · next hd =>
    rw [if_pos hd] at hround
    rw [quotedEnd, loop_next (lt_utf8ByteSize htext) hround (by omega), byteLength_pair hascii hascii, quotedEnd]
  · next hd =>
    rw [if_neg hd] at hround
    rw [quotedEnd, loop_done (lt_utf8ByteSize htext) hround, byteLength_concat, utf8Size_of_lt hascii]

/-- **A quotation is skipped to where it ends for the scan of characters.** -/
theorem quotedEnd_eq (hascii : mark.toNat < 0x80) (hmark : '\\' ≠ mark) (htext : text.toList = pre ++ cs) :
    quotedEnd text mark escapes (byteLength pre) =
      .ok (byteLength (pre ++ cs.take (quotedLength mark escapes cs))) := by
  -- An escape and a doubled mark take two characters, so the induction is on their number.
  induction hn : cs.length using Nat.strongRecOn generalizing pre cs with
  | _ n ih =>
    match cs with
    | [] =>
      have hsize : text.utf8ByteSize = byteLength pre := utf8ByteSize_eq htext
      rw [quotedEnd, loop_atEnd htext, hsize, List.take_nil, List.append_nil]
    | c :: cs =>
      rw [List.length_cons] at hn
      by_cases hescape : c = '\\' ∧ escapes = true
      · obtain ⟨rfl, rfl⟩ := hescape
        match cs with
        | [] =>
          have hsize : text.utf8ByteSize = byteLength (pre ++ ['\\']) := by rw [← byteLength_toList, htext]
          have hround : quotedRound text mark true (byteLength pre) () = .ok (.next (byteLength pre + 2) ()) := by
            rw [quotedRound_eq (byte_of_lt htext (by decide)), if_pos ⟨rfl, rfl⟩]
          have hpast : text.utf8ByteSize ≤ byteLength pre + 2 := by
            rw [hsize, byteLength_concat]
            exact Nat.add_le_add_left (by decide) _
          rw [quotedEnd, loop_next (lt_utf8ByteSize htext) hround (by omega), loop_of_le hpast, hsize,
            IntoClause.quotedLength_lone, List.take_succ_cons, List.take_zero]
        | d :: cs =>
          rw [List.length_cons] at hn
          have hnext : text.toList = (pre ++ ['\\', d]) ++ cs := behind htext
          rw [quotedEnd_escape hascii htext, ih cs.length (by omega) hnext rfl, IntoClause.quotedLength_escape,
            List.append_assoc]
          rfl
      · by_cases hc : c = mark
        · subst hc
          rw [quotedEnd_mark hascii hmark htext, IntoClause.quotedLength_mark hmark]
          split
          · next hd =>
            obtain ⟨cs, rfl⟩ := List.head?_eq_some_iff.1 hd
            rw [List.length_cons] at hn
            have hnext : text.toList = (pre ++ [c, c]) ++ cs := behind htext
            rw [ih cs.length (by omega) hnext rfl, List.append_assoc]
            rfl
          · rfl
        · have hnext : text.toList = (pre ++ [c]) ++ cs := behind htext
          have hplain := quotedEnd_plain hascii htext (Nat.zero_le _) (fun _ => hescape) (fun _ => hc)
          rw [Nat.add_zero] at hplain
          rw [hplain, ih cs.length (by omega) hnext rfl, IntoClause.quotedLength_plain hc hescape, List.append_assoc]
          rfl

end

/-! ## Comments -/

/-- A byte of a comment, so many levels deep. -/
def commentRound (text : String) (i : Nat) (nesting : Int) : Checked (Round Int Nat) := do
  let b ← byte text i
  if b = '/' ∧ byte? text (i + 1) = some '*' then return .next (i + 2) (nesting + 1)
  else if b = '*' ∧ byte? text (i + 1) = some '/' then
    if nesting - 1 = 0 then return .done (i + 2) else return .next (i + 2) (nesting - 1)
  else return .next (i + 1) nesting

/-- The end of a comment, from an index that lies so many levels deep in it. -/
def commentEnd (text : String) (i : Nat) (nesting : Int) : Checked Nat :=
  loop text (commentRound text) (fun _ _ => text.utf8ByteSize) i nesting

/-- The end of a comment that starts at an index. -/
def skipComment (text : String) (start : Nat) : Checked Nat :=
  commentEnd text start 0

section

variable {nesting : Int}

theorem commentRound_eq (hbyte : byte text i = .ok u) :
    commentRound text i nesting =
      if u = '/' ∧ byte? text (i + 1) = some '*' then .ok (.next (i + 2) (nesting + 1))
      else if u = '*' ∧ byte? text (i + 1) = some '/' then
        if nesting - 1 = 0 then .ok (.done (i + 2)) else .ok (.next (i + 2) (nesting - 1))
      else .ok (.next (i + 1) nesting) := by
  rw [commentRound, hbyte]
  rfl

theorem commentEnd_open (htext : text.toList = pre ++ '/' :: '*' :: cs) :
    commentEnd text (byteLength pre) nesting = commentEnd text (byteLength (pre ++ ['/', '*'])) (nesting + 1) := by
  have hround : commentRound text (byteLength pre) nesting = .ok (.next (byteLength pre + 2) (nesting + 1)) := by
    rw [commentRound_eq (byte_of_lt htext (by decide)),
      if_pos ⟨rfl, (byte?_next htext (by decide) (by decide)).2 rfl⟩]
  rw [commentEnd, loop_next (lt_utf8ByteSize htext) hround (by omega), byteLength_pair (by decide) (by decide),
    commentEnd]

theorem commentEnd_close (htext : text.toList = pre ++ '*' :: '/' :: cs) :
    commentEnd text (byteLength pre) nesting =
      if nesting - 1 = 0 then .ok (byteLength (pre ++ ['*', '/']))
      else commentEnd text (byteLength (pre ++ ['*', '/'])) (nesting - 1) := by
  have hround : commentRound text (byteLength pre) nesting = _ := commentRound_eq (byte_of_lt htext (by decide))
  rw [if_neg fun h => absurd h.1 (by decide), if_pos ⟨rfl, (byte?_next htext (by decide) (by decide)).2 rfl⟩] at hround
  rw [byteLength_pair (by decide) (by decide)]
  split
  · next hlast =>
    rw [if_pos hlast] at hround
    rw [commentEnd, loop_done (lt_utf8ByteSize htext) hround]
  · next hlast =>
    rw [if_neg hlast] at hround
    rw [commentEnd, loop_next (lt_utf8ByteSize htext) hround (by omega), commentEnd]

theorem commentEnd_plain (htext : text.toList = pre ++ c :: cs) (hopen : c = '/' → cs.head? ≠ some '*')
    (hclose : c = '*' → cs.head? ≠ some '/') :
    commentEnd text (byteLength pre) nesting = commentEnd text (byteLength (pre ++ [c])) nesting := by
  refine loop_inside (k := 0) htext (Nat.zero_le _) fun j _ hj => ?_
  obtain ⟨u, hbyte, hlooks⟩ := exists_byte htext hj
  -- A byte of ASCII is the character, and the only byte of it.
  have hpair {a b : Char} (ha : a.toNat < 0x80) (hb : b.toNat < 0x80) (hne : c = a → cs.head? ≠ some b) :
      ¬ (u = a ∧ byte? text (byteLength pre + j + 1) = some b) := by
    rintro ⟨hu, hnext⟩
    have hc := (hlooks.eq_iff ha).1 hu
    subst hc
    obtain rfl : j = 0 := by
      rw [utf8Size_of_lt ha] at hj
      omega
    exact hne rfl ((byte?_next htext ha hb).1 hnext)
  rw [commentRound_eq hbyte, if_neg (hpair (by decide) (by decide) hopen),
    if_neg (hpair (by decide) (by decide) hclose)]

theorem take_getD_map (front cs : List Char) (n? : Option Nat) :
    (front ++ cs).take ((n?.map (· + front.length)).getD (front ++ cs).length) =
      front ++ cs.take (n?.getD cs.length) := by
  cases n? with
  | none => rw [Option.map_none, Option.getD_none, Option.getD_none, List.take_length, List.take_length]
  | some n => rw [Option.map_some, Option.getD_some, Option.getD_some, Nat.add_comm, List.take_length_add_append]

/-- **A comment is skipped to where it ends**, or to the end of the text. -/
theorem commentEnd_eq {depth : Nat} (hdepth : 0 < depth) (htext : text.toList = pre ++ cs) :
    commentEnd text (byteLength pre) depth =
      .ok (byteLength (pre ++ cs.take ((Sql.Lexer.blockComment depth cs).getD cs.length))) := by
  fun_induction Sql.Lexer.blockComment depth cs generalizing pre with
  | case1 depth cs ih =>
    have hnext : text.toList = (pre ++ ['/', '*']) ++ cs := behind htext
    rw [commentEnd_open htext, ← Int.natCast_succ, ih (Nat.succ_pos depth) hnext, List.append_assoc]
    exact congrArg (fun piece => Except.ok (byteLength (pre ++ piece))) (take_getD_map ['/', '*'] cs _).symm
  | case2 depth cs hlast =>
    have hone : (depth : Int) - 1 = 0 := by omega
    rw [commentEnd_close htext, if_pos hone]
    rfl
  | case3 depth cs hlast ih =>
    have hnext : text.toList = (pre ++ ['*', '/']) ++ cs := behind htext
    have hmore : (depth : Int) - 1 ≠ 0 := by omega
    have hless : (depth : Int) - 1 = (depth - 1 : Nat) := by omega
    rw [commentEnd_close htext, if_neg hmore, hless, ih (by omega) hnext, List.append_assoc]
    exact congrArg (fun piece => Except.ok (byteLength (pre ++ piece))) (take_getD_map ['*', '/'] cs _).symm
  | case4 depth c cs hopen hclose ih =>
    have hnext : text.toList = (pre ++ [c]) ++ cs := behind htext
    have hhead {a b : Char} (hne : ∀ tail, c = a → cs = b :: tail → False) (hc : c = a) : cs.head? ≠ some b := by
      intro hcs
      obtain ⟨tail, htail⟩ := List.head?_eq_some_iff.1 hcs
      exact hne tail hc htail
    rw [commentEnd_plain htext (hhead hopen) (hhead hclose), ih hdepth hnext, List.append_assoc]
    exact congrArg (fun piece => Except.ok (byteLength (pre ++ piece))) (take_getD_map [c] cs _).symm
  | case5 depth =>
    have hsize : text.utf8ByteSize = byteLength pre := utf8ByteSize_eq htext
    rw [commentEnd, loop_atEnd htext, hsize, List.take_nil, List.append_nil]

end

/-! ## Dollar quotations -/

/-- A byte of the tag of a dollar quotation. -/
def tagRound (text : String) (i : Nat) (_ : Unit) : Checked (Round Unit Nat) := do
  let b ← byte text i
  if isPlainTag b = true then return .next (i + 1) () else return .done i

/-- The end of a tag, from an index inside it. -/
def tagEnd (text : String) (i : Nat) : Checked Nat :=
  loop text (tagRound text) (fun i _ => i) i ()

/-- The end of a dollar quotation that starts at an index, if one does. -/
def skipDollar (text : String) (start : Nat) : Checked (Option Nat) := do
  if ((byte? text (start + 1)).map Char.isDigit).getD false = true then return none
  else
    let stop ← tagEnd text (start + 1)
    if byte? text stop = some '$' then
      let tag ← cut text start (stop + 1)
      let body ← cut text (stop + 1) text.utf8ByteSize
      match findPiece tag.toList body.toList with
      | some n => return some (stop + 1 + byteLength (body.toList.take n) + tag.utf8ByteSize)
      | none => return some text.utf8ByteSize
    else return none

theorem isPlainTag_eq (h : Looks u c) : isPlainTag u = isPlainTag c := by
  have hunderscore : decide (u = '_') = decide (c = '_') := decide_eq_decide.2 (h.eq_iff (by decide))
  rw [isPlainTag, isPlainTag, Char.isAlphanum, Char.isAlphanum, h.isAlpha_eq, h.isDigit_eq, hunderscore]

theorem tagEnd_eq (htext : text.toList = pre ++ cs) :
    tagEnd text (byteLength pre) = .ok (byteLength (pre ++ cs.takeWhile isPlainTag)) := by
  induction cs generalizing pre with
  | nil => rw [tagEnd, loop_atEnd htext, List.takeWhile_nil, List.append_nil]
  | cons c cs ih =>
    have hround {j : Nat} (hj : j < c.utf8Size) : tagRound text (byteLength pre + j) () =
        if isPlainTag c = true then .ok (.next (byteLength pre + j + 1) ()) else .ok (.done (byteLength pre + j)) := by
      obtain ⟨u, hbyte, hlooks⟩ := exists_byte htext hj
      rw [tagRound, hbyte, ← isPlainTag_eq hlooks]
      rfl
    by_cases hc : isPlainTag c = true
    · have hnext : text.toList = (pre ++ [c]) ++ cs := behind htext
      have hpass : tagEnd text (byteLength pre) = tagEnd text (byteLength (pre ++ [c])) :=
        loop_inside (k := 0) htext (Nat.zero_le _) fun j _ hj => by rw [hround hj, if_pos hc]
      rw [hpass, ih hnext, List.takeWhile_cons_of_pos hc, List.append_assoc]
      rfl
    · have hstop := hround c.utf8Size_pos
      rw [if_neg hc] at hstop
      rw [tagEnd, loop_done (lt_utf8ByteSize htext) hstop, List.takeWhile_cons_of_neg hc, List.append_nil, Nat.add_zero]

/-- A dollar sign that no tag and second dollar sign follow opens nothing. -/
theorem dollarLength_eq_none (h : (cs.drop (cs.takeWhile isPlainTag).length).head? ≠ some '$') :
    dollarLength cs = none := by
  rw [dollarLength]
  split
  · rfl
  · dsimp only
    split
    · next hcs => exact absurd (congrArg List.head? hcs) h
    · rfl

/-- A tag in its dollar signs and the text behind it are cut out of the whole text. -/
theorem cut_tag {tag body : List Char} (htext : text.toList = (pre ++ ['$'] ++ tag) ++ '$' :: body) :
    cut text (byteLength pre) (byteLength (pre ++ ['$'] ++ tag) + 1) = .ok (String.ofList ('$' :: tag ++ ['$'])) ∧
    cut text (byteLength (pre ++ ['$'] ++ tag) + 1) text.utf8ByteSize = .ok (String.ofList body) := by
  have hstop : byteLength (pre ++ ['$'] ++ tag) + 1 = byteLength (pre ++ ['$'] ++ tag ++ ['$']) :=
    (byteLength_concat _ '$').symm
  rw [hstop]
  constructor
  · have hpiece : text.toList = pre ++ (('$' :: tag ++ ['$']) ++ body) := by
      rw [htext]
      simp
    have hlength : byteLength (pre ++ ['$'] ++ tag ++ ['$']) = byteLength pre + byteLength ('$' :: tag ++ ['$']) := by
      rw [← byteLength_append]
      simp
    rw [hlength, cut_append hpiece]
  · have hbody : text.toList = (pre ++ ['$'] ++ tag ++ ['$']) ++ (body ++ []) := by
      rw [htext]
      simp
    rw [utf8ByteSize_eq hbody, List.append_nil, cut_append hbody]

/-- The characters of a dollar quotation whose body ends in front of the second tag. -/
theorem take_of_findPiece {tag body : List Char} {n : Nat} (h : findPiece ('$' :: tag ++ ['$']) body = some n) :
    (tag ++ '$' :: body).take (tag.length + 1 + n + (tag.length + 2)) =
      tag ++ '$' :: (body.take n ++ ('$' :: tag ++ ['$'])) := by
  obtain ⟨tail, htail⟩ := Sql.Lexer.findPiece_append h
  have hn : (body.take n).length = n := by
    have hlength := congrArg List.length htail
    rw [List.length_take]
    simp only [List.length_drop, List.length_append, List.length_cons] at hlength
    omega
  have hwhole : tag ++ '$' :: body = (tag ++ '$' :: (body.take n ++ ('$' :: tag ++ ['$']))) ++ tail := by
    conv_lhs => rw [← List.take_append_drop n body, htail]
    simp
  rw [hwhole, List.take_left']
  simp only [List.length_append, List.length_cons, List.length_nil, hn]
  omega

/-- **A dollar quotation is skipped to where it ends for the scan of characters.** -/
theorem skipDollar_eq (htext : text.toList = pre ++ '$' :: cs) :
    skipDollar text (byteLength pre) = .ok ((dollarLength cs).map fun k => byteLength (pre ++ '$' :: cs.take k)) := by
  have hnext : text.toList = (pre ++ ['$']) ++ cs := behind htext
  have hstart : byteLength pre + 1 = byteLength (pre ++ ['$']) := (byteLength_concat pre '$').symm
  have hdigit : (byte? text (byteLength pre + 1)).map Char.isDigit = cs.head?.map Char.isDigit := by
    rw [hstart]
    exact map_byte? (fun _ _ hlooks => hlooks.isDigit_eq) hnext
  rw [skipDollar, hdigit]
  by_cases hnumber : (cs.head?.map Char.isDigit).getD false = true
  · rw [if_pos hnumber, dollarLength, if_pos hnumber]
    rfl
  · rw [if_neg hnumber, hstart, tagEnd_eq hnext]
    have htag : ∀ c ∈ cs.takeWhile isPlainTag, isPlainTag c = true := List.all_eq_true.1 List.all_takeWhile
    obtain ⟨rest, hcs, hdrop, -⟩ := exists_takeWhile isPlainTag cs
    have hnone : rest.head? ≠ some '$' → dollarLength cs = none := fun h => dollarLength_eq_none (hdrop ▸ h)
    generalize cs.takeWhile isPlainTag = tag at *
    subst hcs
    have hbehind : text.toList = (pre ++ ['$'] ++ tag) ++ rest := by rw [hnext, List.append_assoc _ tag]
    simp only [bind, Except.bind, pure, Except.pure]
    by_cases hd : rest.head? = some '$'
    · rw [if_pos ((byte?_eq_some_iff hbehind (by decide)).2 hd)]
      obtain ⟨body, rfl⟩ := List.head?_eq_some_iff.1 hd
      have hdigit' : (tag.head?.map Char.isDigit).getD false = false := by
        cases tag with
        | nil => rfl
        | cons c tag => exact Bool.eq_false_iff.2 hnumber
      obtain ⟨hpiece, hbody⟩ := cut_tag hbehind
      rw [hpiece, hbody, IntoClause.dollarLength_tag htag hdigit']
      simp only [String.toList_ofList, ← byteLength_toList]
      cases hfind : findPiece ('$' :: tag ++ ['$']) body with
      | none =>
        rw [Option.map_some, List.take_length, hnext]
        simp
      | some n =>
        have hdollar : '$'.utf8Size = 1 := rfl
        have hend : byteLength (pre ++ ['$'] ++ tag) + 1 + byteLength (body.take n) + byteLength ('$' :: tag ++ ['$']) =
            byteLength (pre ++ '$' :: (tag ++ '$' :: (body.take n ++ ('$' :: tag ++ ['$'])))) := by
          simp only [byteLength_append, byteLength, hdollar, List.cons_append]
          omega
        rw [Option.map_some, take_of_findPiece hfind, ← hend]
    · rw [if_neg (mt (byte?_eq_some_iff hbehind (by decide)).1 hd), hnone hd]
      rfl

/-! ## What is skipped -/

/-- The end of a line comment that starts at an index. -/
def skipLine (text : String) (start : Nat) : Checked Nat := do
  let far ← search text (· = '\n') start
  return far.elim text.utf8ByteSize fun n => start + n + 1

/-- The byte before an index belongs to a word. -/
def followsWord (text : String) (i : Nat) : Checked Bool :=
  if i = 0 then .ok false
  else do
    let b ← byte text (i - 1)
    return isWordChar b

/-- The byte before an index is the letter that makes backslashes escape in the string that starts there. -/
def followsEscapeLetter (text : String) (i : Nat) : Checked Bool :=
  if i = 0 then .ok false
  else do
    let e ← byte text (i - 1)
    if e = 'E' ∨ e = 'e' then
      let word ← followsWord text (i - 1)
      return !word
    else return false

/-- The index that the scan jumps to from a byte that opens a quotation or a comment. -/
def skip (text : String) (i : Nat) (b : Char) : Checked (Option Nat) :=
  if b = '\'' then do
    let escapes ← followsEscapeLetter text i
    let stop ← skipQuoted text '\'' escapes i
    return some stop
  else if b = '"' then do
    let stop ← skipQuoted text '"' false i
    return some stop
  else if b = '-' ∧ byte? text (i + 1) = some '-' then do
    let stop ← skipLine text i
    return some stop
  else if b = '/' ∧ byte? text (i + 1) = some '*' then do
    let stop ← skipComment text i
    return some stop
  else if b = '$' then do
    let word ← followsWord text i
    if word then return none else skipDollar text i
  else .ok none

/-- What stands before a place is the text to the left of it, last character first. -/
theorem followsWord_eq (htext : text.toList = pre ++ cs) :
    followsWord text (byteLength pre) = .ok (endsInWord pre.reverse) := by
  rcases pre.eq_nil_or_concat' with rfl | ⟨pre, c, rfl⟩
  · rfl
  · obtain ⟨u, hbyte, hlooks⟩ := exists_byte_before htext
    rw [followsWord, if_neg (byteLength_concat_ne_zero pre c), hbyte, List.reverse_concat]
    exact congrArg Except.ok hlooks.isWordChar_eq

theorem followsEscapeLetter_eq (htext : text.toList = pre ++ cs) :
    followsEscapeLetter text (byteLength pre) = .ok (opensEscapes pre.reverse) := by
  rcases pre.eq_nil_or_concat' with rfl | ⟨pre, c, rfl⟩
  · rfl
  · obtain ⟨u, hbyte, hlooks⟩ := exists_byte_before htext
    rw [followsEscapeLetter, if_neg (byteLength_concat_ne_zero pre c), hbyte, List.reverse_concat, opensEscapes]
    simp only [bind, Except.bind, pure, Except.pure, hlooks.eq_iff (a := 'E') (by decide),
      hlooks.eq_iff (a := 'e') (by decide)]
    by_cases hc : c = 'E' ∨ c = 'e'
    · have hsize : c.utf8Size = 1 := by
        rcases hc with rfl | rfl <;> rfl
      have hword : followsWord text (byteLength pre) = .ok (endsInWord pre.reverse) :=
        followsWord_eq (htext.trans (List.append_assoc ..))
      rw [if_pos hc, byteLength_concat, hsize, Nat.add_sub_cancel, hword]
      rcases hc with rfl | rfl <;> rfl
    · rw [if_neg hc]
      simp [not_or.1 hc]

theorem skip_quotation {mark : Char} {escapes : Bool} (hascii : mark.toNat < 0x80) (hmark : '\\' ≠ mark)
    (htext : text.toList = pre ++ mark :: cs) :
    skipQuoted text mark escapes (byteLength pre) =
      .ok (byteLength (pre ++ mark :: cs.take (quotedLength mark escapes cs))) := by
  have hnext : text.toList = (pre ++ [mark]) ++ cs := behind htext
  have hstart : byteLength pre + 1 = byteLength (pre ++ [mark]) := by rw [byteLength_concat, utf8Size_of_lt hascii]
  rw [skipQuoted, hstart, quotedEnd_eq hascii hmark hnext, List.append_assoc]
  rfl

/-- A line comment ends behind its line break, or with the text. -/
theorem skipLine_eq (htext : text.toList = pre ++ '-' :: cs) :
    skipLine text (byteLength pre) =
      .ok (byteLength (pre ++ '-' :: cs.take (min ((cs.takeWhile (· ≠ '\n')).length + 1) cs.length))) := by
  have hline : ∀ c ∈ cs.takeWhile (· ≠ '\n'), c ≠ '\n' :=
    fun c hc => of_decide_eq_true (List.all_eq_true.1 List.all_takeWhile c hc)
  obtain ⟨rest, hcs, -, hstop⟩ := exists_takeWhile (· ≠ '\n') cs
  have hbreak : ∀ c ∈ rest.head?, c = '\n' := fun c hc => Decidable.not_not.1 (of_decide_eq_false (hstop c hc))
  generalize cs.takeWhile (· ≠ '\n') = line at *
  subst hcs
  have hlooks (u c : Char) (h : Looks u c) : decide (u = '\n') = decide (c = '\n') :=
    decide_eq_decide.2 (h.eq_iff (by decide))
  have hfront : ∀ c ∈ '-' :: line, decide (c = '\n') = false :=
    List.forall_mem_cons.2 ⟨rfl, fun c hc => decide_eq_false (hline c hc)⟩
  rw [skipLine, search_append hlooks htext hfront (fun c hc => decide_eq_true (hbreak c hc))]
  cases rest with
  | nil =>
    have hall : (line ++ []).take (min (line.length + 1) (line ++ []).length) = line ++ [] :=
      List.take_of_length_le (by simp)
    rw [if_pos rfl, hall, ← htext, byteLength_toList]
    rfl
  | cons c rest =>
    obtain rfl := hbreak c rfl
    have hline' : (line ++ '\n' :: rest).take (min (line.length + 1) (line ++ '\n' :: rest).length) =
        line ++ ['\n'] := by
      rw [Nat.min_eq_left (by simp), List.take_length_add_append]
      rfl
    rw [if_neg (List.cons_ne_nil _ _), hline', ← List.cons_append, ← List.append_assoc, byteLength_concat,
      byteLength_append]
    rfl

/-- A comment is skipped from its two signs on. -/
theorem skipComment_eq (htext : text.toList = pre ++ '/' :: '*' :: cs) :
    skipComment text (byteLength pre) =
      .ok (byteLength (pre ++ '/' :: ('*' :: cs).take ((Sql.Lexer.blockComment 1 cs).getD cs.length + 1))) := by
  have hnext : text.toList = (pre ++ ['/', '*']) ++ cs := behind htext
  rw [skipComment, commentEnd_open htext]
  exact (commentEnd_eq Nat.one_pos hnext).trans (by rw [List.append_assoc]; rfl)

/-- **What the scan jumps over** is what the scan of characters takes for a quotation or a comment. -/
theorem skip_eq (htext : text.toList = pre ++ c :: cs) (hlooks : Looks u c) :
    skip text (byteLength pre) u =
      .ok ((opaqueLength pre.reverse c cs).map fun k => byteLength (pre ++ c :: cs.take k)) := by
  have hu {a : Char} (ha : a.toNat < 0x80) : u = a ↔ c = a := hlooks.eq_iff ha
  have hpair {a b : Char} (ha : a.toNat < 0x80) (hb : b.toNat < 0x80) :
      u = a ∧ byte? text (byteLength pre + 1) = some b ↔ c = a ∧ cs.head? = some b := by
    rw [hu ha]
    refine and_congr_right fun hc => byte?_next htext (hc ▸ ha) hb
  simp only [skip, hu (a := '\'') (by decide), hu (a := '"') (by decide), hu (a := '$') (by decide),
    hpair (a := '-') (b := '-') (by decide) (by decide), hpair (a := '/') (b := '*') (by decide) (by decide)]
  by_cases hquote : c = '\''
  · subst hquote
    rw [if_pos rfl, followsEscapeLetter_eq htext]
    exact congrArg (Except.map some) (skip_quotation (by decide) (by decide) htext)
  by_cases hdouble : c = '"'
  · subst hdouble
    rw [if_neg hquote, if_pos rfl]
    exact congrArg (Except.map some) (skip_quotation (by decide) (by decide) htext)
  by_cases hline : c = '-' ∧ cs.head? = some '-'
  · obtain ⟨rfl, hhead⟩ := hline
    obtain ⟨cs, rfl⟩ := List.head?_eq_some_iff.1 hhead
    rw [if_neg hquote, if_neg hdouble, if_pos ⟨rfl, rfl⟩]
    exact congrArg (Except.map some) (skipLine_eq htext)
  by_cases hblock : c = '/' ∧ cs.head? = some '*'
  · obtain ⟨rfl, hhead⟩ := hblock
    obtain ⟨cs, rfl⟩ := List.head?_eq_some_iff.1 hhead
    rw [if_neg hquote, if_neg hdouble, if_neg hline, if_pos ⟨rfl, rfl⟩]
    exact congrArg (Except.map some) (skipComment_eq htext)
  rw [if_neg hquote, if_neg hdouble, if_neg hline, if_neg hblock]
  by_cases hdollar : c = '$'
  · subst hdollar
    rw [if_pos rfl, followsWord_eq htext]
    by_cases hword : endsInWord pre.reverse = true
    · rw [hword, IntoClause.opaqueLength_eq_none hquote hdouble (fun hc => absurd hc (by decide))
        (fun hc => absurd hc (by decide)) fun _ => .inl hword]
      rfl
    · have hopens : opaqueLength pre.reverse '$' cs = dollarLength cs := if_neg hword
      rw [Bool.eq_false_iff.2 hword, hopens]
      exact skipDollar_eq htext
  · rw [if_neg hdollar, IntoClause.opaqueLength_eq_none hquote hdouble (fun hc hcs => hline ⟨hc, hcs⟩)
      (fun hc hcs => hblock ⟨hc, hcs⟩) (fun hc => absurd hc hdollar)]
    rfl

/-- From inside a character the scan does not jump. -/
theorem skip_of_le (hu : 0x80 ≤ u.toNat) : skip text i u = .ok none := by
  have hne {a : Char} (ha : a.toNat < 0x80) : u ≠ a := ne_of_ascii hu ha
  rw [skip, if_neg (hne (by decide)), if_neg (hne (by decide)), if_neg fun h => hne (by decide) h.1,
    if_neg fun h => hne (by decide) h.1, if_neg (hne (by decide))]

/-- **Every jump goes on**, to a place that the text has. -/
theorem exists_skip (h : i < text.utf8ByteSize) :
    ∃ b jump, byte text i = .ok b ∧ skip text i b = .ok jump ∧
      ∀ later ∈ jump, i < later ∧ later ≤ text.utf8ByteSize := by
  rw [← byteLength_toList] at h
  obtain ⟨pre, c, cs, k, htext, rfl, hk⟩ := exists_of_lt_byteLength h
  obtain ⟨u, hbyte, hlooks⟩ := exists_byte htext hk
  rcases Nat.eq_zero_or_pos k with rfl | hinside
  · refine ⟨u, _, hbyte, skip_eq htext hlooks, fun later hlater => ?_⟩
    obtain ⟨n, -, rfl⟩ := Option.map_eq_some_iff.1 hlater
    have hnext : text.toList = (pre ++ c :: cs.take n) ++ cs.drop n := by simp [htext]
    rw [utf8ByteSize_eq hnext]
    exact ⟨byteLength_lt_append pre c _, Nat.le_add_right ..⟩
  · refine ⟨u, none, hbyte, skip_of_le (hlooks.le_of_one_lt (by omega)), fun later hlater => ?_⟩
    exact absurd hlater (Option.not_mem_none later)

end ByteScan
end Routine
