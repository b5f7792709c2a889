import Routine.Proofs.Bytes

/-!
# Loops over bytes

A scan that works on the bytes of a text keeps an index, reads bytes at it and around it, and cuts pieces out of the
text. Each of these can go wrong: a byte may be missing, a piece may begin or end inside a character, and a round may
leave the index where it was, so that the loop never ends. Here a scan says so (`Trap`), and one that returns a result
has read, cut and gone on in the text as it should.

The scan of bytes is compared with a scan of characters at the places between characters. A round that ends inside a
character is followed by rounds that pass over the rest of its bytes (`loop_inside`).
-/

namespace Routine
namespace ByteScan

open Text

/-! ## Reading and cutting -/

/-- Why a scan fails. -/
inductive Trap where
  /-- The text has no byte at the index. -/
  | missing (index : Nat)
  /-- One of the offsets is not between two characters of the text, or the second is before the first. -/
  | torn (start stop : Nat)
  /-- A round at the index does not go on to a later one. -/
  | stuck (index : Nat)
deriving DecidableEq, Repr

/-- The result of a scan, or why it fails. -/
abbrev Checked := Except Trap

/-- The byte at an index of the text. -/
def byte (text : String) (index : Nat) : Checked Char :=
  match byte? text index with
  | some b => .ok b
  | none => .error (.missing index)

/-- How far behind an index the first byte with the property is. The text has to reach to the index. -/
def search (text : String) (p : Char → Bool) (index : Nat) : Checked (Option Nat) :=
  if index ≤ text.utf8ByteSize then .ok (((text.toUTF8.data.toList.drop index).map Char.ofUInt8).findIdx? p)
  else .error (.missing index)

/-- The piece of the text between two offsets. -/
def cut (text : String) (start stop : Nat) : Checked String :=
  if (⟨start⟩ : String.Pos.Raw).IsValid text ∧ (⟨stop⟩ : String.Pos.Raw).IsValid text ∧ start ≤ stop then
    .ok (String.Pos.Raw.extract text ⟨start⟩ ⟨stop⟩)
  else .error (.torn start stop)

section

variable {text : String} {pre mid cs : List Char} {c : Char}

/-- A piece behind a place is in front of the place behind the piece. -/
theorem behind (htext : text.toList = pre ++ (mid ++ cs)) : text.toList = (pre ++ mid) ++ cs :=
  htext.trans (List.append_assoc ..).symm

theorem utf8ByteSize_eq (htext : text.toList = pre ++ cs) : text.utf8ByteSize = byteLength pre + byteLength cs := by
  rw [← byteLength_toList, htext, byteLength_append]

theorem lt_utf8ByteSize (htext : text.toList = pre ++ c :: cs) : byteLength pre < text.utf8ByteSize := by
  rw [← byteLength_toList, htext]
  exact byteLength_lt_append pre c cs

theorem exists_byte (htext : text.toList = pre ++ c :: cs) {k : Nat} (hk : k < c.utf8Size) :
    ∃ u, byte text (byteLength pre + k) = .ok u ∧ Looks u c := by
  obtain ⟨u, hu, hlooks⟩ := exists_byte? htext hk
  exact ⟨u, by rw [byte, hu], hlooks⟩

/-- The last byte in front of a place looks like the last character there. -/
theorem exists_byte_before (htext : text.toList = pre ++ [c] ++ cs) :
    ∃ u, byte text (byteLength (pre ++ [c]) - 1) = .ok u ∧ Looks u c := by
  have hpos := c.utf8Size_pos
  have hlast : byteLength (pre ++ [c]) - 1 = byteLength pre + (c.utf8Size - 1) := by
    rw [byteLength_concat]
    omega
  rw [List.append_assoc] at htext
  rw [hlast]
  exact exists_byte htext (by omega)

/-- The byte behind a character of ASCII is the next character, if that is of ASCII. -/
theorem byte?_next {a : Char} (htext : text.toList = pre ++ c :: cs) (hc : c.toNat < 0x80) (ha : a.toNat < 0x80) :
    byte? text (byteLength pre + 1) = some a ↔ cs.head? = some a := by
  have hnext : text.toList = (pre ++ [c]) ++ cs := behind htext
  rw [← utf8Size_of_lt hc, ← byteLength_concat, byte?_eq_some_iff hnext ha]

theorem byte_of_lt (htext : text.toList = pre ++ c :: cs) (hc : c.toNat < 0x80) :
    byte text (byteLength pre) = .ok c := by
  rw [byte, (byte?_eq_some_iff htext hc).2 rfl]

example : byte "aé" 3 = .error (.missing 3) := by decide

theorem cut_append (htext : text.toList = pre ++ (mid ++ cs)) :
    cut text (byteLength pre) (byteLength pre + byteLength mid) = .ok (String.ofList mid) := by
  have hstop : text.toList = (pre ++ mid) ++ cs := behind htext
  have hvalid := isValid_byteLength hstop
  rw [byteLength_append] at hvalid
  rw [cut, if_pos ⟨isValid_byteLength htext, hvalid, Nat.le_add_right ..⟩, ← String.ofList_toList (s := text), hstop]
  simp only [byteLength_eq_utf8Len]
  rw [String.extract_of_valid]

example : cut "aé" 0 2 = .error (.torn 0 2) := by decide

end

/-- A property that does not tell a character from its bytes is found at the same place among both. -/
theorem findIdx?_bytes {p : Char → Bool} (hp : ∀ u c, Looks u c → p u = p c) (cs : List Char) :
    ((bytes cs).map Char.ofUInt8).findIdx? p = (cs.findIdx? p).map fun n => byteLength (cs.take n) := by
  induction cs with
  | nil => rfl
  | cons c cs ih =>
    have hsame : ∀ b ∈ String.utf8EncodeChar c, p (Char.ofUInt8 b) = p c := fun b hb => hp _ _ (looks_of_mem hb)
    rw [bytes_cons, List.map_append, List.findIdx?_append, ih, List.findIdx?_cons]
    -- A character with the property is found at its first byte, another is passed over with all of its bytes.
    by_cases hc : p c = true
    · obtain ⟨b, bs, hbytes⟩ := List.exists_cons_of_length_pos (String.length_utf8EncodeChar c ▸ c.utf8Size_pos)
      have hb : p (Char.ofUInt8 b) = true := by rw [hsame b (hbytes ▸ List.mem_cons_self), hc]
      rw [if_pos hc, hbytes, List.map_cons, List.findIdx?_cons, if_pos hb]
      rfl
    · have hnone : ((String.utf8EncodeChar c).map Char.ofUInt8).findIdx? p = none := by
        rw [List.findIdx?_eq_none_iff]
        intro u hu
        obtain ⟨b, hb, rfl⟩ := List.mem_map.1 hu
        rw [hsame b hb]
        exact Bool.eq_false_iff.2 hc
      rw [if_neg hc, hnone, Option.none_or, List.length_map, String.length_utf8EncodeChar, Option.map_map,
        Option.map_map]
      congr 1
      funext n
      simp [byteLength, Nat.add_comm]

/-- A text is its longest front with the property, and a rest that does not start with it. -/
theorem exists_takeWhile (p : Char → Bool) (cs : List Char) :
    ∃ rest, cs = cs.takeWhile p ++ rest ∧ cs.drop (cs.takeWhile p).length = rest ∧ ∀ c ∈ rest.head?, p c = false := by
  have hdrop : (cs.takeWhile p ++ cs.dropWhile p).drop (cs.takeWhile p).length = cs.dropWhile p := List.drop_left
  rw [List.takeWhile_append_dropWhile] at hdrop
  refine ⟨cs.dropWhile p, List.takeWhile_append_dropWhile.symm, hdrop, fun c hc => ?_⟩
  have hnot := List.head?_dropWhile_not p cs
  rw [Option.mem_def.1 hc] at hnot
  exact hnot

/-- The search finds the first character with the property, behind a front without one. -/
theorem search_append {text : String} {pre front cs : List Char} {p : Char → Bool}
    (hp : ∀ u c, Looks u c → p u = p c) (htext : text.toList = pre ++ (front ++ cs)) (hfront : ∀ c ∈ front, p c = false)
    (hcs : ∀ c ∈ cs.head?, p c = true) :
    search text p (byteLength pre) = .ok (if cs = [] then none else some (byteLength front)) := by
  have hle : byteLength pre ≤ text.utf8ByteSize := by
    rw [utf8ByteSize_eq htext]
    exact Nat.le_add_right ..
  rw [search, if_pos hle, toList_toUTF8, htext, bytes_append, List.drop_left' (length_bytes pre), findIdx?_bytes hp,
    List.findIdx?_append, List.findIdx?_eq_none_iff.2 hfront]
  cases cs with
  | nil => rfl
  | cons c cs =>
    rw [List.findIdx?_cons, if_pos (hcs c rfl), if_neg (List.cons_ne_nil c cs)]
    simp

/-! ## Loops -/

/-- What a round of a loop comes to. -/
inductive Round (σ ρ : Type) where
  | next (index : Nat) (state : σ)
  | done (result : ρ)

section

variable {σ ρ : Type}

/-- Rounds from an index on, for as long as there is a byte at it. -/
def loop (text : String) (round : Nat → σ → Checked (Round σ ρ)) (atEnd : Nat → σ → ρ) (index : Nat) (state : σ) :
    Checked ρ :=
  if index < text.utf8ByteSize then
    match round index state with
    | .error trap => .error trap
    | .ok (.done result) => .ok result
    | .ok (.next later state) =>
      if index < later then loop text round atEnd later state else .error (.stuck index)
  else .ok (atEnd index state)
termination_by text.utf8ByteSize - index

variable {text : String} {round : Nat → σ → Checked (Round σ ρ)} {atEnd : Nat → σ → ρ} {index later : Nat}
  {state state' : σ} {pre cs : List Char} {c : Char}

theorem loop_of_le (h : text.utf8ByteSize ≤ index) : loop text round atEnd index state = .ok (atEnd index state) := by
  rw [loop, if_neg (Nat.not_lt.2 h)]

/-- Behind the last character the loop is over. -/
theorem loop_atEnd (htext : text.toList = pre ++ []) :
    loop text round atEnd (byteLength pre) state = .ok (atEnd (byteLength pre) state) :=
  loop_of_le (Nat.le_of_eq (utf8ByteSize_eq htext))

theorem loop_done {result : ρ} (h : index < text.utf8ByteSize) (hround : round index state = .ok (.done result)) :
    loop text round atEnd index state = .ok result := by
  rw [loop, if_pos h, hround]

theorem loop_next (h : index < text.utf8ByteSize) (hround : round index state = .ok (.next later state'))
    (hlater : index < later) : loop text round atEnd index state = loop text round atEnd later state' := by
  rw [loop, if_pos h, hround]
  exact if_pos hlater

/-- The loop passes over the bytes of a character that change nothing. -/
theorem loop_inside (htext : text.toList = pre ++ c :: cs) {k : Nat} (hk : k ≤ c.utf8Size)
    (hround : ∀ j, k ≤ j → j < c.utf8Size →
      round (byteLength pre + j) state = .ok (.next (byteLength pre + j + 1) state)) :
    loop text round atEnd (byteLength pre + k) state = loop text round atEnd (byteLength (pre ++ [c])) state := by
  obtain ⟨n, hn⟩ := Nat.exists_eq_add_of_le hk
  induction n generalizing k with
  | zero =>
    rw [byteLength_concat, hn, Nat.add_zero]
  | succ n ih =>
    have hlt : byteLength pre + k < text.utf8ByteSize := by
      rw [utf8ByteSize_eq htext, byteLength]
      omega
    rw [loop_next hlt (hround k (Nat.le_refl k) (by omega)) (Nat.lt_succ_self _), Nat.add_assoc]
    exact ih (by omega) (fun j hj => hround j (by omega)) (by omega)

end

end ByteScan
end Routine
