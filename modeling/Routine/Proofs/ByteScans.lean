import Routine.Proofs.ByteSkips
import Routine.Proofs.Rejoining

/-!
# Scans of bytes are safe

The place of an `INTO` clause and the operator of an assignment are looked for byte by byte when a text cannot be cut
into tokens. Such a text may be cut off anywhere, and hold characters of several bytes in any place. Here the two scans
are written down with all that they read and cut, and with an index in bytes (`ByteScan.clausePlace`,
`ByteScan.operatorPlace`). Both return what the scans of characters return, so neither of them ever fails.

The rounds are compared where the index is between two characters. A character outside ASCII opens nothing, starts no
word and is no operator, and its bytes are passed over one after the other.
-/

namespace Routine
namespace ByteScan

open Text
open Sql (isWordChar)
open IntoClause (Mode opaqueLength endsInWord endsInDot charBalance scanChars)

variable {text : String} {pre cs : List Char} {c u : Char} {i : Nat}

/-! ## The place of a clause -/

/-- What the scan for a clause knows so far. -/
structure ClauseState where
  depth : Int
  mode : Mode

/-- The end of the word at an index. -/
def wordEnd (text : String) (start : Nat) : Checked Nat := do
  let far ← search text (!isWordChar ·) start
  return far.elim text.utf8ByteSize fun n => start + n

/-- A word at an index, with the offset in front of the blanks before it as the result at a boundary. -/
def wordRound (text : String) (i : Nat) (s : ClauseState) : Checked (Round ClauseState (Option Nat)) := do
  let stop ← wordEnd text i
  let before ← cut text 0 i
  if (trimEnd before).toList.getLast? = some '.' then return .next stop s
  else
    let word ← cut text i stop
    if s.depth ≠ 0 then return .next stop s
    else
      match s.mode.read word with
      | .goOn mode => return .next stop ⟨s.depth, mode⟩
      | .boundary => return .done (some (trimEnd before).utf8ByteSize)
      | .present => return .done none

/-- A round of the scan for a clause. -/
def clauseRound (text : String) (i : Nat) (s : ClauseState) : Checked (Round ClauseState (Option Nat)) := do
  let b ← byte text i
  let jump ← skip text i b
  match jump with
  | some later => return .next later s
  | none =>
    let s := ⟨s.depth + charBalance b, s.mode⟩
    if b.isAlpha = true ∨ b = '_' then
      let inWord ← followsWord text i
      if inWord = true then return .next (i + 1) s else wordRound text i s
    else return .next (i + 1) s

/-- The result of the scan for a clause, from an index on. -/
def clauseEnd (text : String) (i : Nat) (s : ClauseState) : Checked (Option Nat) :=
  loop text (clauseRound text) (fun _ _ => some (trimEnd text).utf8ByteSize) i s

/-- The offset that a clause goes to, or none if there is one already. -/
def clausePlace (text : String) : Checked (Option Nat) :=
  clauseEnd text 0 ⟨0, .undecided⟩

theorem cut_zero (htext : text.toList = pre ++ cs) : cut text 0 (byteLength pre) = .ok (String.ofList pre) := by
  have hcut : cut text (byteLength []) (byteLength [] + byteLength pre) = .ok (String.ofList pre) := cut_append htext
  rwa [byteLength, Nat.zero_add] at hcut

theorem isWordChar_not (u c : Char) (h : Looks u c) : (!isWordChar u) = !isWordChar c := by
  rw [h.isWordChar_eq]

theorem wordEnd_eq {word : List Char} (htext : text.toList = pre ++ (word ++ cs))
    (hword : ∀ c ∈ word, isWordChar c = true) (hcs : ∀ c ∈ cs.head?, isWordChar c = false) :
    wordEnd text (byteLength pre) = .ok (byteLength (pre ++ word)) := by
  have hfar := search_append isWordChar_not htext (fun c hc => by rw [hword c hc]; rfl)
    (fun c hc => by rw [hcs c hc]; rfl)
  rw [wordEnd, hfar]
  split
  · next hnil =>
    rw [hnil, List.append_nil] at htext
    rw [← htext, byteLength_toList]
    rfl
  · rw [byteLength_append]
    rfl

theorem getLast?_trimEnd (pre : List Char) :
    (trimEnd (String.ofList pre)).toList.getLast? = some '.' ↔ endsInDot pre.reverse = true := by
  rw [trimEnd, String.toList_ofList, String.toList_ofList, dropBlanksEnd, List.getLast?_reverse, endsInDot,
    decide_eq_true_iff, dropBlanks]

section

variable {s : ClauseState} {later : Nat}

theorem clauseRound_jump (hbyte : byte text i = .ok u) (hskip : skip text i u = .ok (some later)) :
    clauseRound text i s = .ok (.next later s) := by
  rw [clauseRound, hbyte]
  show (skip text i u).bind _ = _
  rw [hskip]
  rfl

theorem clauseRound_stay (hbyte : byte text i = .ok u) (hskip : skip text i u = .ok none) :
    clauseRound text i s =
      if u.isAlpha = true ∨ u = '_' then
        (followsWord text i).bind fun inWord =>
          if inWord = true then .ok (.next (i + 1) ⟨s.depth + charBalance u, s.mode⟩)
          else wordRound text i ⟨s.depth + charBalance u, s.mode⟩
      else .ok (.next (i + 1) ⟨s.depth + charBalance u, s.mode⟩) := by
  rw [clauseRound, hbyte]
  show (skip text i u).bind _ = _
  rw [hskip]
  rfl

end

theorem charBalance_of_le (hc : 0x80 ≤ c.toNat) : charBalance c = 0 := by
  rw [charBalance, if_neg (ne_of_ascii hc (by decide)), if_neg (ne_of_ascii hc (by decide))]

theorem not_start_of_le (hc : 0x80 ≤ c.toNat) : ¬ (c.isAlpha = true ∨ c = '_') := by
  rw [isAlpha_of_le hc]
  exact not_or.2 ⟨Bool.false_ne_true, ne_of_ascii hc (by decide)⟩

/-- A byte outside ASCII is passed over. -/
theorem clauseRound_of_le {s : ClauseState} (hbyte : byte text i = .ok u) (hu : 0x80 ≤ u.toNat) :
    clauseRound text i s = .ok (.next (i + 1) s) := by
  rw [clauseRound_stay hbyte (skip_of_le hu), if_neg (not_start_of_le hu), charBalance_of_le hu, Int.add_zero]

/-- The scan goes on behind a quotation or a comment. -/
theorem clauseEnd_jump {s : ClauseState} (htext : text.toList = pre ++ c :: cs) {k : Nat}
    (hopens : opaqueLength pre.reverse c cs = some k) :
    clauseEnd text (byteLength pre) s = clauseEnd text (byteLength (pre ++ c :: cs.take k)) s := by
  obtain ⟨u, hbyte, hlooks⟩ := exists_byte htext c.utf8Size_pos
  have hskip := skip_eq htext hlooks
  rw [hopens, Option.map_some] at hskip
  exact loop_next (lt_utf8ByteSize htext) (clauseRound_jump hbyte hskip) (byteLength_lt_append pre c _)

/-- The scan goes on behind a character that opens nothing and starts no word. -/
theorem clauseEnd_other {depth : Int} {mode : Mode} (htext : text.toList = pre ++ c :: cs)
    (hopens : opaqueLength pre.reverse c cs = none)
    (hword : ¬ ((c.isAlpha = true ∨ c = '_') ∧ endsInWord pre.reverse = false)) :
    clauseEnd text (byteLength pre) ⟨depth, mode⟩ =
      clauseEnd text (byteLength (pre ++ [c])) ⟨depth + charBalance c, mode⟩ := by
  rcases Nat.lt_or_ge c.toNat 0x80 with hc | hc
  · have hskip := skip_eq htext (.inl rfl)
    rw [hopens, Option.map_none] at hskip
    have hround : clauseRound text (byteLength pre) ⟨depth, mode⟩ =
        .ok (.next (byteLength (pre ++ [c])) ⟨depth + charBalance c, mode⟩) := by
      rw [clauseRound_stay (byte_of_lt htext hc) hskip, byteLength_concat, utf8Size_of_lt hc, followsWord_eq htext]
      split
      · next hstart =>
        have hinside : endsInWord pre.reverse = true := by simpa [hstart] using hword
        rw [hinside]
        rfl
      · rfl
    exact loop_next (lt_utf8ByteSize htext) hround (byteLength_lt_append pre c [])
  · rw [charBalance_of_le hc, Int.add_zero]
    refine loop_inside (k := 0) htext (Nat.zero_le _) fun j _ hj => ?_
    obtain ⟨u, hbyte, hlooks⟩ := exists_byte htext hj
    exact clauseRound_of_le hbyte (hlooks.le_of_le hc)

/-- The word at a place, in full, with what it means for the scan. -/
theorem wordRound_eq {word : List Char} (htext : text.toList = pre ++ (word ++ cs))
    (hword : ∀ c ∈ word, isWordChar c = true) (hcs : ∀ c ∈ cs.head?, isWordChar c = false) (s : ClauseState) :
    wordRound text (byteLength pre) s =
      if endsInDot pre.reverse = true ∨ s.depth ≠ 0 then .ok (.next (byteLength (pre ++ word)) s)
      else
        match s.mode.read (String.ofList word) with
        | .goOn mode => .ok (.next (byteLength (pre ++ word)) ⟨s.depth, mode⟩)
        | .boundary => .ok (.done (some (byteLength (dropBlanksEnd pre))))
        | .present => .ok (.done none) := by
  have hpiece : cut text (byteLength pre) (byteLength (pre ++ word)) = .ok (String.ofList word) := by
    rw [byteLength_append, cut_append htext]
  have hsize : (trimEnd (String.ofList pre)).utf8ByteSize = byteLength (dropBlanksEnd pre) := by
    rw [← byteLength_toList, trimEnd, String.toList_ofList, String.toList_ofList]
  rw [wordRound, wordEnd_eq htext hword hcs, cut_zero htext]
  simp only [bind, Except.bind, pure, Except.pure, hpiece, hsize, getLast?_trimEnd]
  by_cases hdot : endsInDot pre.reverse = true
  · rw [if_pos hdot, if_pos (.inl hdot)]
  · rw [if_neg hdot, if_congr (or_iff_right hdot) rfl rfl]

/-- The scan at the first character of a word. -/
theorem clauseRound_word {depth : Int} {mode : Mode} (htext : text.toList = pre ++ c :: cs)
    (hopens : opaqueLength pre.reverse c cs = none) (hc : c.isAlpha = true ∨ c = '_')
    (hbefore : endsInWord pre.reverse = false) :
    clauseRound text (byteLength pre) ⟨depth, mode⟩ = wordRound text (byteLength pre) ⟨depth, mode⟩ := by
  have hascii : c.toNat < 0x80 := Nat.lt_of_not_le fun hle => not_start_of_le hle hc
  have hbalance : charBalance c = 0 :=
    IntoClause.charBalance_of_isWordChar (IntoClause.isWordChar_of_start hc)
  have hskip := skip_eq htext (.inl rfl)
  rw [hopens, Option.map_none] at hskip
  rw [clauseRound_stay (byte_of_lt htext hascii) hskip, if_pos hc, followsWord_eq htext, hbefore, hbalance,
    Int.add_zero]
  rfl

/-- The scan at a word goes on behind it, unless the word decides. -/
theorem clauseEnd_word {depth : Int} {mode : Mode} {tail : List Char} (htext : text.toList = pre ++ c :: (tail ++ cs))
    (hopens : opaqueLength pre.reverse c (tail ++ cs) = none) (hc : c.isAlpha = true ∨ c = '_')
    (hbefore : endsInWord pre.reverse = false) (htail : ∀ d ∈ tail, isWordChar d = true)
    (hcs : ∀ d ∈ cs.head?, isWordChar d = false) :
    clauseEnd text (byteLength pre) ⟨depth, mode⟩ =
      if endsInDot pre.reverse = true ∨ depth ≠ 0 then clauseEnd text (byteLength (pre ++ c :: tail)) ⟨depth, mode⟩
      else
        match mode.read (String.ofList (c :: tail)) with
        | .goOn mode => clauseEnd text (byteLength (pre ++ c :: tail)) ⟨depth, mode⟩
        | .boundary => .ok (some (byteLength (dropBlanksEnd pre)))
        | .present => .ok none := by
  have hword : ∀ d ∈ c :: tail, isWordChar d = true :=
    List.forall_mem_cons.2 ⟨IntoClause.isWordChar_of_start hc, htail⟩
  have hround : clauseRound text (byteLength pre) ⟨depth, mode⟩ = _ :=
    (clauseRound_word htext hopens hc hbefore).trans (wordRound_eq htext hword hcs _)
  have hlater : byteLength pre < byteLength (pre ++ c :: tail) := byteLength_lt_append pre c tail
  split
  · next hpassed =>
    rw [if_pos hpassed] at hround
    exact loop_next (lt_utf8ByteSize htext) hround hlater
  · next hpassed =>
    rw [if_neg hpassed] at hround
    dsimp only at hround
    split at hround
    · exact loop_next (lt_utf8ByteSize htext) hround hlater
    · exact loop_done (lt_utf8ByteSize htext) hround
    · exact loop_done (lt_utf8ByteSize htext) hround

theorem offset_cut (text : List Char) (piece : List Char) :
    (IntoClause.Found.placement.cut text piece).offset = some (byteLength (dropBlanksEnd piece)) := by
  rw [IntoClause.Found.placement.cut, IntoClause.Placement.offset, String.toList_ofList]

/-- **The scan of bytes for a clause is the scan of characters**, from any place on. -/
theorem clauseEnd_eq {depth : Int} {mode : Mode} (htext : text.toList = pre ++ cs) :
    clauseEnd text (byteLength pre) ⟨depth, mode⟩ =
      .ok ((scanChars depth mode pre.reverse cs).placement text.toList).offset := by
  -- The induction is on the number of characters left: a jump and a word take several of them at once.
  induction hn : cs.length using Nat.strongRecOn generalizing pre cs depth mode with
  | _ n ih =>
    match cs with
    | [] =>
      rw [clauseEnd, loop_atEnd htext, scanChars, IntoClause.Found.placement, offset_cut, trimEnd,
        ← byteLength_toList, String.toList_ofList]
    | c :: cs =>
      rw [List.length_cons] at hn
      cases hopens : opaqueLength pre.reverse c cs with
      | some k =>
        have hnext : text.toList = (pre ++ c :: cs.take k) ++ cs.drop k := by simp [htext]
        have hless : (cs.drop k).length < n := by
          rw [List.length_drop]
          omega
        rw [clauseEnd_jump htext hopens, ih _ hless hnext rfl, scanChars, hopens]
        simp
      | none =>
        by_cases hword : (c.isAlpha = true ∨ c = '_') ∧ endsInWord pre.reverse = false
        · obtain ⟨hc, hbefore⟩ := hword
          have htail : ∀ d ∈ cs.takeWhile isWordChar, isWordChar d = true := List.all_eq_true.1 List.all_takeWhile
          obtain ⟨rest, hcs, hdrop, hstop⟩ := exists_takeWhile isWordChar cs
          rw [IntoClause.scanChars_word hopens hc hbefore, hdrop]
          generalize cs.takeWhile isWordChar = tail at *
          subst hcs
          have hnext : text.toList = (pre ++ c :: tail) ++ rest := by simp [htext]
          have hless : rest.length < n := by
            rw [List.length_append] at hn
            omega
          have hrest (mode' : Mode) : clauseEnd text (byteLength (pre ++ c :: tail)) ⟨depth, mode'⟩ =
              .ok ((scanChars depth mode' (tail.reverse ++ c :: pre.reverse) rest).placement text.toList).offset := by
            rw [ih _ hless hnext rfl]
            simp
          rw [clauseEnd_word htext hopens hc hbefore htail hstop]
          split
          · exact hrest mode
          · cases mode.read (String.ofList (c :: tail)) with
            | goOn mode' => exact hrest mode'
            | boundary =>
              dsimp only
              rw [IntoClause.Found.placement, offset_cut, List.length_reverse, htext, List.take_left]
            | present => rfl
        · have hnext : text.toList = (pre ++ [c]) ++ cs := behind htext
          rw [clauseEnd_other htext hopens hword, ih _ (by omega) hnext rfl, IntoClause.scanChars_other hopens hword,
            List.reverse_concat]

/-! ## The operator of an assignment -/

open Assignment (Fault Operator PlacedChar Inside surfaceChars charDepth choose operatorOfChars)

/-- What the scan for an operator knows so far. -/
structure OperatorState where
  quote : Option Char
  depth : Int
  equals : List Nat

/-- The byte before an index, or a blank if there is none. -/
def byteBefore (text : String) (i : Nat) : Checked Char :=
  if i = 0 then .ok ' ' else byte text (i - 1)

/-- A round of the scan for an operator, outside quotations. -/
def outerRound (text : String) (i : Nat) (b : Char) (depth : Int) (equals : List Nat) :
    Checked (Round OperatorState (Except Fault (Nat × Nat))) :=
  if b = '\'' ∨ b = '"' then .ok (.next (i + 1) ⟨some b, depth, equals⟩)
  else if b = '(' ∨ b = '[' then .ok (.next (i + 1) ⟨none, depth + 1, equals⟩)
  else if b = ')' ∨ b = ']' then .ok (.next (i + 1) ⟨none, depth - 1, equals⟩)
  else if b = ':' ∧ depth = 0 ∧ byte? text (i + 1) = some '=' then .ok (.done (.ok (i, i + 2)))
  else if b = '=' ∧ depth = 0 then do
    let before ← byteBefore text i
    let after := (byte? text (i + 1)).getD ' '
    if before ∉ ['<', '>', '!', ':', '='] ∧ after ∉ ['>', '='] then return .next (i + 1) ⟨none, depth, equals ++ [i]⟩
    else return .next (i + 1) ⟨none, depth, equals⟩
  else .ok (.next (i + 1) ⟨none, depth, equals⟩)

/-- A round of the scan for an operator. -/
def operatorRound (text : String) (i : Nat) (s : OperatorState) :
    Checked (Round OperatorState (Except Fault (Nat × Nat))) := do
  let b ← byte text i
  match s.quote with
  | some q =>
    if b = q then
      if byte? text (i + 1) = some q then return .next (i + 2) s
      else return .next (i + 1) ⟨none, s.depth, s.equals⟩
    else return .next (i + 1) s
  | none => outerRound text i b s.depth s.equals

/-- The offsets of the operator, if there was no `:=`. -/
def chosen : List Nat → Except Fault (Nat × Nat)
  | [] => .error .noOperator
  | [i] => .ok (i, i + 1)
  | equals => .error (.ambiguous equals.length)

/-- The result of the scan for an operator, from an index on. -/
def operatorEnd (text : String) (i : Nat) (s : OperatorState) : Checked (Except Fault (Nat × Nat)) :=
  loop text (operatorRound text) (fun _ s => chosen s.equals) i s

/-- The offsets before and behind the operator. -/
def operatorPlace (text : String) : Checked (Except Fault (Nat × Nat)) :=
  operatorEnd text 0 ⟨none, 0, []⟩

/-- The offsets before and behind an operator whose place is known in characters. -/
def offsets (text : String) (op : Operator) : Nat × Nat :=
  (byteLength (text.toList.take op.start), byteLength (text.toList.take (op.start + op.length)))

/-- The characters that the scan of characters sees from a place on. -/
def places (s : Inside) (pre cs : List Char) : List PlacedChar :=
  surfaceChars s.quote s.depth pre.length (pre.getLast?.getD ' ') cs

/-- The operator to cut at, from the `=` seen so far and the characters still to be seen. -/
def pick (equals : List Operator) (ps : List PlacedChar) : Except Fault Operator :=
  choose ((ps.filter PlacedChar.isAssign).map fun p => ⟨p.start, 2⟩)
    (equals ++ (ps.filter PlacedChar.isEquals).map fun p => ⟨p.start, 1⟩)

/-- An `=` of the text. -/
def IsEquals (text : String) (op : Operator) : Prop :=
  ∃ before after, text.toList = before ++ '=' :: after ∧ op = ⟨before.length, 1⟩

theorem offsets_append {piece : List Char} (htext : text.toList = pre ++ (piece ++ cs)) :
    offsets text ⟨pre.length, piece.length⟩ = (byteLength pre, byteLength pre + byteLength piece) := by
  rw [offsets, htext, List.take_left, List.take_length_add_append, List.take_left, byteLength_append]

theorem chosen_eq {equals : List Operator} (h : ∀ op ∈ equals, IsEquals text op) :
    chosen (equals.map fun op => (offsets text op).1) = (pick equals []).map (offsets text) := by
  match equals with
  | [] => rfl
  | [op] =>
    obtain ⟨before, after, htext, rfl⟩ := h op List.mem_cons_self
    have hoffsets : offsets text ⟨before.length, 1⟩ = (byteLength before, byteLength before + 1) :=
      @offsets_append text before after ['='] htext
    show Except.ok ((offsets text _).1, (offsets text _).1 + 1) = Except.ok (offsets text _)
    rw [hoffsets]
  | op :: op' :: ops =>
    show Except.error (Fault.ambiguous _) = Except.error (Fault.ambiguous _)
    simp

theorem places_cons (s : Inside) (pre : List Char) (c : Char) (cs : List Char) :
    places s pre (c :: cs) =
      (if s.sees c then [⟨pre.length, pre.getLast?.getD ' ', c, cs.head?.getD ' '⟩] else []) ++
        places (s.next c) (pre ++ [c]) cs := by
  rw [places, Assignment.surfaceChars_cons, places, List.length_append, List.getLast?_concat]
  rfl

theorem exists_byteBefore (htext : text.toList = pre ++ cs) :
    ∃ u, byteBefore text (byteLength pre) = .ok u ∧ Looks u (pre.getLast?.getD ' ') := by
  rcases pre.eq_nil_or_concat' with rfl | ⟨pre, c, rfl⟩
  · exact ⟨' ', rfl, .inl rfl⟩
  · obtain ⟨u, hbyte, hlooks⟩ := exists_byte_before htext
    rw [List.getLast?_concat]
    exact ⟨u, by rw [byteBefore, if_neg (byteLength_concat_ne_zero pre c), hbyte], hlooks⟩

theorem sees_of_quote_eq_none {s : Inside} (hquote : s.quote = none) (hmark : ¬ (c = '\'' ∨ c = '"')) :
    s.sees c = true ↔ s.depth = 0 ∧ charDepth c = 0 := by
  obtain ⟨quote, depth, isMark⟩ := s
  cases hquote
  simpa [Inside.sees, Inside.outside] using fun _ _ => not_or.1 hmark

theorem next_of_quote_eq_none {s : Inside} (hquote : s.quote = none) (hmark : ¬ (c = '\'' ∨ c = '"')) :
    (s.next c).quote = none ∧ (s.next c).depth = s.depth + charDepth c := by
  obtain ⟨quote, depth, isMark⟩ := s
  cases hquote
  simp [Inside.next, hmark]

theorem next_of_mark {s : Inside} (hquote : s.quote = none) (hmark : c = '\'' ∨ c = '"') :
    (s.next c).quote = some c ∧ (s.next c).depth = s.depth ∧ s.sees c = false := by
  obtain ⟨quote, depth, isMark⟩ := s
  cases hquote
  rcases hmark with rfl | rfl <;> simp [Inside.next, Inside.sees]

theorem isEquals_iff {start : Nat} {before here after : Char} :
    PlacedChar.isEquals ⟨start, before, here, after⟩ = true ↔
      here = '=' ∧ before ∉ ['<', '>', '!', ':', '='] ∧ after ∉ ['>', '='] := by
  simp [PlacedChar.isEquals, and_assoc]

theorem getD_mem_iff (c? : Option Char) : c?.getD ' ' ∈ ['>', '='] ↔ c? = some '>' ∨ c? = some '=' := by
  cases c? <;> simp

/-- A character of ASCII outside quotations, in the scan of bytes. -/
theorem outerRound_eq (htext : text.toList = pre ++ c :: cs) (hc : c.toNat < 0x80) {s : Inside}
    (hquote : s.quote = none) (hassign : ¬ (s.sees c = true ∧ c = ':' ∧ cs.head? = some '=')) (equals : List Nat) :
    outerRound text (byteLength pre) c s.depth equals =
      .ok (.next (byteLength pre + 1) ⟨(s.next c).quote, (s.next c).depth, equals ++
        if s.sees c = true ∧ PlacedChar.isEquals ⟨pre.length, pre.getLast?.getD ' ', c, cs.head?.getD ' '⟩ = true
        then [byteLength pre] else []⟩) := by
  rw [outerRound]
  by_cases hmark : c = '\'' ∨ c = '"'
  · obtain ⟨hnext, hdepth, hsees⟩ := next_of_mark hquote hmark
    rw [if_pos hmark, hnext, hdepth, hsees, if_neg fun h => Bool.false_ne_true h.1, List.append_nil]
  have hsees := sees_of_quote_eq_none hquote hmark
  obtain ⟨hnext, hdepth⟩ := next_of_quote_eq_none hquote hmark
  rw [if_neg hmark, hnext, hdepth]
  by_cases hopen : c = '(' ∨ c = '['
  · have hone : charDepth c = 1 := if_pos hopen
    rw [if_pos hopen, if_neg, List.append_nil, hone]
    rintro ⟨hseen, -⟩
    exact absurd (hsees.1 hseen).2 (by rw [hone]; decide)
  by_cases hclose : c = ')' ∨ c = ']'
  · have hone : charDepth c = -1 := by rw [charDepth, if_neg hopen, if_pos hclose]
    rw [if_neg hopen, if_pos hclose, if_neg, List.append_nil, hone, Int.sub_eq_add_neg]
    rintro ⟨hseen, -⟩
    exact absurd (hsees.1 hseen).2 (by rw [hone]; decide)
  have hzero : charDepth c = 0 := by rw [charDepth, if_neg hopen, if_neg hclose]
  have hnot : ¬ (c = ':' ∧ s.depth = 0 ∧ byte? text (byteLength pre + 1) = some '=') := by
    rintro ⟨hcolon, hdepth, hafter⟩
    exact hassign ⟨hsees.2 ⟨hdepth, hzero⟩, hcolon, (byte?_next htext hc (by decide)).1 hafter⟩
  rw [if_neg hopen, if_neg hclose, if_neg hnot, hzero, Int.add_zero]
  by_cases hequals : c = '=' ∧ s.depth = 0
  · obtain ⟨u, hbefore, hlooks⟩ := exists_byteBefore htext
    have hsame : (u ∉ ['<', '>', '!', ':', '='] ∧ (byte? text (byteLength pre + 1)).getD ' ' ∉ ['>', '=']) ↔
        s.sees c = true ∧
          PlacedChar.isEquals ⟨pre.length, pre.getLast?.getD ' ', c, cs.head?.getD ' '⟩ = true := by
      rw [and_iff_right (hsees.2 ⟨hequals.2, hzero⟩), isEquals_iff, and_iff_right hequals.1, getD_mem_iff, getD_mem_iff,
        byte?_next htext hc (by decide), byte?_next htext hc (by decide), hlooks.mem_iff rfl]
    rw [if_pos hequals, hbefore]
    simp only [bind, Except.bind, pure, Except.pure, hsame]
    split
    · rfl
    · rw [List.append_nil]
  · rw [if_neg hequals, if_neg, List.append_nil]
    rintro ⟨hseen, his⟩
    exact hequals ⟨(isEquals_iff.1 his).1, (hsees.1 hseen).1⟩

theorem operatorRound_eq (hbyte : byte text i = .ok u) {depth : Int} {equals : List Nat} :
    operatorRound text i ⟨none, depth, equals⟩ = outerRound text i u depth equals := by
  rw [operatorRound, hbyte]
  rfl

theorem operatorRound_quoted (hbyte : byte text i = .ok u) {q : Char} {depth : Int} {equals : List Nat} :
    operatorRound text i ⟨some q, depth, equals⟩ =
      if u = q then
        if byte? text (i + 1) = some q then .ok (.next (i + 2) ⟨some q, depth, equals⟩)
        else .ok (.next (i + 1) ⟨none, depth, equals⟩)
      else .ok (.next (i + 1) ⟨some q, depth, equals⟩) := by
  rw [operatorRound, hbyte]
  rfl

/-- A byte outside ASCII is passed over. -/
theorem outerRound_of_le (hu : 0x80 ≤ u.toNat) {depth : Int} {equals : List Nat} :
    outerRound text i u depth equals = .ok (.next (i + 1) ⟨none, depth, equals⟩) := by
  have hne {a : Char} (ha : a.toNat < 0x80) : u ≠ a := ne_of_ascii hu ha
  have hne' {a b : Char} (ha : a.toNat < 0x80) (hb : b.toNat < 0x80) : ¬ (u = a ∨ u = b) := not_or.2 ⟨hne ha, hne hb⟩
  rw [outerRound, if_neg (hne' (by decide) (by decide)), if_neg (hne' (by decide) (by decide)),
    if_neg (hne' (by decide) (by decide)), if_neg fun h => hne (by decide) h.1, if_neg fun h => hne (by decide) h.1]

/-- Inside a quotation, a mark that is not doubled closes it and all else is passed over. -/
theorem operatorEnd_quoted (htext : text.toList = pre ++ c :: cs) {s : Inside} {q : Char} (hquote : s.quote = some q)
    (hdoubled : ¬ (c = q ∧ cs.head? = some q)) (equals : List Nat) :
    s.sees c = false ∧
    operatorEnd text (byteLength pre) ⟨s.quote, s.depth, equals⟩ =
      operatorEnd text (byteLength (pre ++ [c])) ⟨(s.next c).quote, (s.next c).depth, equals⟩ := by
  obtain ⟨quote, depth, isMark⟩ := s
  cases hquote
  have hascii : q.toNat < 0x80 := by
    rcases isMark q rfl with rfl | rfl <;> decide
  refine ⟨by simp [Inside.sees, Inside.outside], ?_⟩
  by_cases hc : c = q
  · subst hc
    have hround : operatorRound text (byteLength pre) ⟨some c, depth, equals⟩ =
        .ok (.next (byteLength (pre ++ [c])) ⟨none, depth, equals⟩) := by
      have hsingle : ¬ byte? text (byteLength pre + 1) = some c := fun h =>
        hdoubled ⟨rfl, (byte?_next htext hascii hascii).1 h⟩
      rw [operatorRound_quoted (byte_of_lt htext hascii), if_pos rfl, if_neg hsingle, byteLength_concat,
        utf8Size_of_lt hascii]
    have hnext : (Inside.next ⟨some c, depth, isMark⟩ c).quote = none ∧
        (Inside.next ⟨some c, depth, isMark⟩ c).depth = depth := by simp [Inside.next]
    rw [hnext.1, hnext.2]
    exact loop_next (lt_utf8ByteSize htext) hround (byteLength_lt_append pre c [])
  · have hnext : Inside.next ⟨some q, depth, isMark⟩ c = ⟨some q, depth, isMark⟩ := if_neg hc
    rw [hnext]
    refine loop_inside (k := 0) htext (Nat.zero_le _) fun j _ hj => ?_
    obtain ⟨u, hbyte, hlooks⟩ := exists_byte htext hj
    rw [operatorRound_quoted hbyte, if_neg (mt (hlooks.eq_iff hascii).1 hc)]

/-- Outside quotations, all but a `:=` is passed over, and the `=` that may be the operator are kept. -/
theorem operatorEnd_outer (htext : text.toList = pre ++ c :: cs) {s : Inside} (hquote : s.quote = none)
    (hassign : ¬ (s.sees c = true ∧ c = ':' ∧ cs.head? = some '=')) (equals : List Nat) :
    operatorEnd text (byteLength pre) ⟨s.quote, s.depth, equals⟩ =
      operatorEnd text (byteLength (pre ++ [c])) ⟨(s.next c).quote, (s.next c).depth, equals ++
        if s.sees c = true ∧ PlacedChar.isEquals ⟨pre.length, pre.getLast?.getD ' ', c, cs.head?.getD ' '⟩ = true
        then [byteLength pre] else []⟩ := by
  rcases Nat.lt_or_ge c.toNat 0x80 with hc | hc
  · rw [byteLength_concat, utf8Size_of_lt hc, hquote]
    refine loop_next (lt_utf8ByteSize htext) ?_ (Nat.lt_succ_self _)
    rw [operatorRound_eq (byte_of_lt htext hc), outerRound_eq htext hc hquote hassign]
  · have hne {a : Char} (ha : a.toNat < 0x80) : c ≠ a := ne_of_ascii hc ha
    have hmark : ¬ (c = '\'' ∨ c = '"') := not_or.2 ⟨hne (by decide), hne (by decide)⟩
    have hzero : charDepth c = 0 := by
      rw [charDepth, if_neg (not_or.2 ⟨hne (by decide), hne (by decide)⟩),
        if_neg (not_or.2 ⟨hne (by decide), hne (by decide)⟩)]
    obtain ⟨hnext, hdepth⟩ := next_of_quote_eq_none hquote hmark
    rw [hnext, hdepth, hzero, Int.add_zero, hquote, if_neg fun h => hne (by decide) (isEquals_iff.1 h.2).1,
      List.append_nil]
    refine loop_inside (k := 0) htext (Nat.zero_le _) fun j _ hj => ?_
    obtain ⟨u, hbyte, hlooks⟩ := exists_byte htext hj
    rw [operatorRound_eq hbyte, outerRound_of_le (hlooks.le_of_le hc)]

/-- Inside a quotation, a doubled mark is passed over. -/
theorem operatorEnd_doubled {s : Inside} (hquote : s.quote = some c) (htext : text.toList = pre ++ c :: c :: cs)
    (equals : List Nat) :
    places s pre (c :: c :: cs) = places s (pre ++ [c, c]) cs ∧
    operatorEnd text (byteLength pre) ⟨s.quote, s.depth, equals⟩ =
      operatorEnd text (byteLength (pre ++ [c, c])) ⟨s.quote, s.depth, equals⟩ := by
  have hascii : c.toNat < 0x80 := by
    rcases s.isMark c hquote with rfl | rfl <;> decide
  constructor
  · simp [places, hquote, surfaceChars]
  · have hdoubled := (byte?_next htext hascii hascii).2 rfl
    rw [hquote, byteLength_pair hascii hascii]
    refine loop_next (lt_utf8ByteSize htext) ?_ (by omega)
    rw [operatorRound_quoted (byte_of_lt htext hascii), if_pos rfl, if_pos hdoubled]

/-- A `:=` outside quotations and brackets ends the scan. -/
theorem operatorEnd_assign {s : Inside} (hsees : s.sees ':' = true) (htext : text.toList = pre ++ ':' :: '=' :: cs)
    (equals : List Nat) :
    operatorEnd text (byteLength pre) ⟨s.quote, s.depth, equals⟩ = .ok (.ok (byteLength pre, byteLength pre + 2)) := by
  obtain rfl : s = .outside := by
    simp only [Inside.sees, Bool.and_eq_true, decide_eq_true_eq] at hsees
    exact hsees.1.1
  have hafter := (byte?_next htext (by decide) (by decide)).2 rfl
  refine loop_done (lt_utf8ByteSize htext) ((operatorRound_eq (byte_of_lt htext (by decide))).trans ?_)
  rw [outerRound, if_neg (by decide), if_neg (by decide), if_neg (by decide), if_pos ⟨rfl, rfl, hafter⟩]

/-- Characters that are no `:=` leave their `=` to the choice. -/
theorem pick_append {ps : List PlacedChar} (hps : ∀ p ∈ ps, p.isAssign = false) (equals : List Operator)
    (rest : List PlacedChar) :
    pick equals (ps ++ rest) =
      pick (equals ++ (ps.filter PlacedChar.isEquals).map fun p => ⟨p.start, 1⟩) rest := by
  have hnone : ps.filter PlacedChar.isAssign = [] := by
    rw [List.filter_eq_nil_iff]
    exact fun p hp => Bool.eq_false_iff.1 (hps p hp)
  rw [pick, pick, List.filter_append, List.filter_append, hnone, List.nil_append, List.map_append, List.append_assoc]

/-- The first `:=` is taken. -/
theorem pick_assign {p : PlacedChar} (hp : p.isAssign = true) (equals : List Operator) (ps : List PlacedChar) :
    pick equals (p :: ps) = .ok ⟨p.start, 2⟩ := by
  rw [pick, List.filter_cons_of_pos hp]
  rfl

theorem isAssign_iff {start : Nat} {before here : Char} {after? : Option Char} :
    PlacedChar.isAssign ⟨start, before, here, after?.getD ' '⟩ = true ↔ here = ':' ∧ after? = some '=' := by
  cases after? <;> simp [PlacedChar.isAssign]

theorem kept_eq (sees : Bool) (p : PlacedChar) :
    (((if sees then [p] else []).filter PlacedChar.isEquals).map fun p => (⟨p.start, 1⟩ : Operator)) =
      if sees = true ∧ p.isEquals = true then [⟨p.start, 1⟩] else [] := by
  cases sees <;> cases hp : p.isEquals <;> simp [hp]

/-- **The scan of bytes for an operator is the scan of characters**, from any place on. -/
theorem operatorEnd_eq (htext : text.toList = pre ++ cs) (s : Inside) {equals : List Operator}
    (hequals : ∀ op ∈ equals, IsEquals text op) :
    operatorEnd text (byteLength pre) ⟨s.quote, s.depth, equals.map fun op => (offsets text op).1⟩ =
      .ok ((pick equals (places s pre cs)).map (offsets text)) := by
  -- What is carried along are the `=` seen so far, as operators of the text, since their offsets are known only then.
  induction hn : cs.length using Nat.strongRecOn generalizing pre cs s equals with
  | _ n ih =>
    match cs with
    | [] => rw [operatorEnd, loop_atEnd htext, chosen_eq hequals, places, surfaceChars]
    | c :: cs =>
      rw [List.length_cons] at hn
      have hnext : text.toList = (pre ++ [c]) ++ cs := behind htext
      by_cases hdoubled : s.quote = some c ∧ cs.head? = some c
      · obtain ⟨hquote, hhead⟩ := hdoubled
        obtain ⟨cs, rfl⟩ := List.head?_eq_some_iff.1 hhead
        obtain ⟨hplaces, hend⟩ := operatorEnd_doubled hquote htext (equals.map fun op => (offsets text op).1)
        rw [List.length_cons] at hn
        rw [hplaces, hend]
        exact ih _ (by omega) (by rw [htext, List.append_assoc]; rfl) s hequals rfl
      by_cases hassign : s.sees c = true ∧ c = ':' ∧ cs.head? = some '='
      · obtain ⟨hsees, rfl, hhead⟩ := hassign
        obtain ⟨cs, rfl⟩ := List.head?_eq_some_iff.1 hhead
        have hoffsets : offsets text ⟨pre.length, [':', '='].length⟩ = (byteLength pre, byteLength pre + 2) :=
          offsets_append htext
        rw [operatorEnd_assign hsees htext, places_cons, if_pos hsees, List.singleton_append,
          pick_assign (isAssign_iff.2 ⟨rfl, hhead⟩), Except.map, ← hoffsets]
        rfl
      cases hquote : s.quote with
      | some q =>
        obtain ⟨hsees, hend⟩ := operatorEnd_quoted htext hquote
          (fun h => hdoubled ⟨h.1 ▸ hquote, h.1 ▸ h.2⟩) (equals.map fun op => (offsets text op).1)
        rw [← hquote, hend, places_cons, hsees]
        exact ih _ (by omega) hnext _ hequals rfl
      | none =>
        have hnone : ∀ p ∈ if s.sees c then [⟨pre.length, pre.getLast?.getD ' ', c, cs.head?.getD ' '⟩] else [],
            PlacedChar.isAssign p = false := by
          intro p hp
          split at hp
          · next hsees =>
            rw [List.mem_singleton.1 hp, Bool.eq_false_iff]
            exact fun his => hassign ⟨hsees, isAssign_iff.1 his⟩
          · exact absurd hp (List.not_mem_nil)
        rw [← hquote, operatorEnd_outer htext hquote hassign, places_cons, pick_append hnone, kept_eq]
        split
        · next hkept =>
          obtain rfl := (isEquals_iff.1 hkept.2).1
          have hmap : (equals ++ [(⟨pre.length, 1⟩ : Operator)]).map (fun op => (offsets text op).1) =
              equals.map (fun op => (offsets text op).1) ++ [byteLength pre] := by
            rw [List.map_append, List.map_singleton, offsets, htext, List.take_left]
          have hmore : ∀ op ∈ equals ++ [(⟨pre.length, 1⟩ : Operator)], IsEquals text op :=
            List.forall_mem_append.2 ⟨hequals, List.forall_mem_singleton.2 ⟨pre, cs, htext, rfl⟩⟩
          rw [← hmap]
          exact ih _ (by omega) hnext _ hmore rfl
        · rw [List.append_nil, List.append_nil]
          exact ih _ (by omega) hnext _ hequals rfl

/-! ## Whole texts -/

theorem clausePlace_eq (text : String) :
    clausePlace text = .ok ((scanChars 0 .undecided [] text.toList).placement text.toList).offset := by
  have hstart : text.toList = [] ++ text.toList := rfl
  exact clauseEnd_eq hstart

theorem operatorPlace_eq (text : String) :
    operatorPlace text = .ok ((operatorOfChars text.toList).map (offsets text)) := by
  have hstart : text.toList = [] ++ text.toList := rfl
  have hnone : ∀ op ∈ ([] : List Operator), IsEquals text op := List.forall_mem_nil _
  exact operatorEnd_eq hstart .outside hnone

/-- A clause goes between two characters. -/
theorem isValid_of_mem_offset {text : String} {found : IntoClause.Found} {offset : Nat}
    (h : offset ∈ (found.placement text.toList).offset) : (⟨offset⟩ : String.Pos.Raw).IsValid text := by
  have htrimmed {piece rest : List Char} (htext : text.toList = piece ++ rest)
      (h : offset ∈ (IntoClause.Found.placement.cut text.toList piece).offset) :
      (⟨offset⟩ : String.Pos.Raw).IsValid text := by
    rw [offset_cut, Option.mem_some] at h
    obtain ⟨bs, hpiece, -⟩ := IntoClause.exists_dropBlanksEnd piece
    rw [hpiece, List.append_assoc] at htext
    exact h ▸ isValid_byteLength htext
  cases found with
  | boundary start => exact htrimmed (List.take_append_drop start _).symm h
  | atEnd => exact htrimmed (List.append_nil _).symm h
  | present => cases h

theorem isValid_offsets (text : String) (op : Operator) :
    (offsets text op).1 ≤ (offsets text op).2 ∧
    (⟨(offsets text op).1⟩ : String.Pos.Raw).IsValid text ∧ (⟨(offsets text op).2⟩ : String.Pos.Raw).IsValid text := by
  refine ⟨?_, isValid_byteLength (List.take_append_drop ..).symm, isValid_byteLength (List.take_append_drop ..).symm⟩
  rw [offsets, List.take_add, byteLength_append]
  exact Nat.le_add_right ..

end ByteScan

open ByteScan

/-- **The scans of bytes are safe on every text.** The scan for a clause and the scan for an operator end, read no byte
that the text does not have and cut the text between characters only, as neither fails. They return what the scans of
characters return. The offset of a clause lies between two characters of the text, and so do the offsets before and
behind an operator, the first not behind the second. Every jump over a quotation or a comment goes on to a later index
of the text. -/
theorem byte_scans_are_safe (text : String) :
    (∃ place, clausePlace text = .ok place ∧
      place = ((IntoClause.scanChars 0 .undecided [] text.toList).placement text.toList).offset ∧
      ∀ offset ∈ place, offset ≤ text.utf8ByteSize ∧ (⟨offset⟩ : String.Pos.Raw).IsValid text) ∧
    (∃ found, operatorPlace text = .ok found ∧
      found = (Assignment.operatorOfChars text.toList).map (offsets text) ∧
      ∀ start stop, found = .ok (start, stop) → start ≤ stop ∧ stop ≤ text.utf8ByteSize ∧
        (⟨start⟩ : String.Pos.Raw).IsValid text ∧ (⟨stop⟩ : String.Pos.Raw).IsValid text) ∧
    ∀ i < text.utf8ByteSize, ∃ b jump, byte text i = .ok b ∧ skip text i b = .ok jump ∧
      ∀ later ∈ jump, i < later ∧ later ≤ text.utf8ByteSize := by
  refine ⟨⟨_, clausePlace_eq text, rfl, ?_⟩, ⟨_, operatorPlace_eq text, rfl, ?_⟩, ?_⟩
  · intro offset hoffset
    have hvalid := isValid_of_mem_offset hoffset
    exact ⟨hvalid.le_utf8ByteSize, hvalid⟩
  · intro start stop hfound
    cases hscan : Assignment.operatorOfChars text.toList with
    | error fault =>
      rw [hscan] at hfound
      cases hfound
    | ok op =>
      rw [hscan] at hfound
      obtain ⟨hle, hstart, hstop⟩ := isValid_offsets text op
      have hop : offsets text op = (start, stop) := Except.ok.inj hfound
      rw [hop] at hle hstart hstop
      exact ⟨hle, hstop.le_utf8ByteSize, hstart, hstop⟩
  · intro i hi
    exact exists_skip hi

/-- The string is never closed, and its only escape is of a character with two bytes. -/
theorem byte_scans_are_safe_cutOff :
    operatorPlace "é := E'\\é" = .ok (.ok (3, 5)) ∧
    (⟨3⟩ : String.Pos.Raw).IsValid "é := E'\\é" ∧ (⟨5⟩ : String.Pos.Raw).IsValid "é := E'\\é" ∧
    ∃ b jump, byte "é := E'\\é" 7 = .ok b ∧ skip "é := E'\\é" 7 b = .ok jump ∧
      ∀ later ∈ jump, 7 < later ∧ later ≤ "é := E'\\é".utf8ByteSize := by
  obtain ⟨-, ⟨found, hplace, hfound, hsafe⟩, hjumps⟩ := byte_scans_are_safe "é := E'\\é"
  have hvalue : found = .ok (3, 5) := hfound.trans (by decide)
  obtain ⟨-, -, hstart, hstop⟩ := hsafe 3 5 hvalue
  exact ⟨hvalue ▸ hplace, hstart, hstop, hjumps 7 (by decide)⟩

end Routine
