import Mathlib.Data.String.Basic
import Routine.Sql.Words
import Routine.Text.Find

/-!
# Bytes of a text

A place in a text is counted in characters or in the bytes of its UTF-8 form (`Text.byteLength`). A byte that is looked
at for itself is read as the character with its code, which for a character of ASCII is the character. The bytes of any
other character lie outside ASCII, as it does. So a test that treats all of these alike has the same answer for a
character and for each of its bytes (`Text.Looks`), and only a place inside a character has no counterpart.
-/

namespace Routine
namespace Text

/-! ## Lengths -/

theorem byteLength_eq_utf8Len (cs : List Char) : byteLength cs = String.utf8Len cs := by
  induction cs with
  | nil => rfl
  | cons c cs ih => rw [byteLength, String.utf8Len_cons, ih, Nat.add_comm]

theorem byteLength_append (cs ds : List Char) : byteLength (cs ++ ds) = byteLength cs + byteLength ds := by
  simp only [byteLength_eq_utf8Len, String.utf8Len_append]

theorem byteLength_concat (cs : List Char) (c : Char) : byteLength (cs ++ [c]) = byteLength cs + c.utf8Size :=
  byteLength_append cs [c]

/-- A character more is a byte more. -/
theorem byteLength_lt_append (cs : List Char) (c : Char) (ds : List Char) :
    byteLength cs < byteLength (cs ++ c :: ds) := by
  have hpos := c.utf8Size_pos
  rw [byteLength_append, byteLength]
  omega

theorem byteLength_concat_ne_zero (cs : List Char) (c : Char) : byteLength (cs ++ [c]) ≠ 0 :=
  Nat.ne_zero_of_lt (byteLength_lt_append cs c [])

theorem byteLength_toList (s : String) : byteLength s.toList = s.utf8ByteSize := by
  rw [byteLength_eq_utf8Len, String.utf8Len_toList]

theorem length_le_byteLength (cs : List Char) : cs.length ≤ byteLength cs := by
  induction cs with
  | nil => exact Nat.le_refl 0
  | cons c cs ih =>
    have hpos := c.utf8Size_pos
    rw [List.length_cons, byteLength]
    omega

/-- Every index of a text lies in a character of it. -/
theorem exists_of_lt_byteLength {cs : List Char} {i : Nat} (h : i < byteLength cs) :
    ∃ pre c post k, cs = pre ++ c :: post ∧ i = byteLength pre + k ∧ k < c.utf8Size := by
  induction cs generalizing i with
  | nil => exact absurd h i.not_lt_zero
  | cons c cs ih =>
    rw [byteLength] at h
    rcases Nat.lt_or_ge i c.utf8Size with hi | hi
    · exact ⟨[], c, cs, i, rfl, (Nat.zero_add i).symm, hi⟩
    · obtain ⟨pre, d, post, k, rfl, hk, hd⟩ := @ih (i - c.utf8Size) (by omega)
      refine ⟨c :: pre, d, post, k, rfl, ?_, hd⟩
      rw [byteLength]
      omega

/-- A front of a text ends between two characters. -/
theorem isValid_byteLength {text : String} {front back : List Char} (htext : text.toList = front ++ back) :
    (⟨byteLength front⟩ : String.Pos.Raw).IsValid text := by
  refine String.Pos.Raw.isValid_iff_exists_append.2 ⟨String.ofList front, String.ofList back, ?_, ?_⟩
  · rw [← String.ofList_append, ← htext, String.ofList_toList]
  · rw [String.Pos.Raw.ext_iff, String.byteIdx_rawEndPos, ← byteLength_toList, String.toList_ofList]

/-! ## Bytes of a character -/

/-- The bytes of the text in UTF-8. -/
def bytes (cs : List Char) : List UInt8 := cs.flatMap String.utf8EncodeChar

theorem toList_toUTF8 (s : String) : s.toUTF8.data.toList = bytes s.toList := by
  have hencode (cs : List Char) : cs.utf8Encode.data.toList = bytes cs := by
    simp [List.utf8Encode, bytes]
  rw [String.toUTF8_eq_toByteArray, ← String.utf8Encode_toList, hencode]

theorem bytes_append (cs ds : List Char) : bytes (cs ++ ds) = bytes cs ++ bytes ds :=
  List.flatMap_append

theorem bytes_cons (c : Char) (cs : List Char) : bytes (c :: cs) = String.utf8EncodeChar c ++ bytes cs :=
  List.flatMap_cons

theorem length_bytes (cs : List Char) : (bytes cs).length = byteLength cs := by
  induction cs with
  | nil => rfl
  | cons c cs ih => rw [bytes_cons, List.length_append, String.length_utf8EncodeChar, ih, byteLength]

/-- The first is the second, or both lie outside ASCII. -/
def Looks (u c : Char) : Prop := u = c ∨ 0x80 ≤ u.toNat ∧ 0x80 ≤ c.toNat

theorem toNat_ofUInt8 (b : UInt8) : (Char.ofUInt8 b).toNat = b.toNat :=
  UInt8.toNat_toUInt32 b

theorem utf8Size_of_lt {c : Char} (hc : c.toNat < 0x80) : c.utf8Size = 1 :=
  Char.utf8Size_eq_one_iff.2 (UInt32.le_iff_toNat_le.2 (Nat.le_of_lt_succ hc))

theorem byteLength_pair {a b : Char} (ha : a.toNat < 0x80) (hb : b.toNat < 0x80) (pre : List Char) :
    byteLength (pre ++ [a, b]) = byteLength pre + 2 := by
  rw [byteLength_append, byteLength, byteLength, byteLength, utf8Size_of_lt ha, utf8Size_of_lt hb]

theorem looks_of_mem {c : Char} {b : UInt8} (hb : b ∈ String.utf8EncodeChar c) : Looks (Char.ofUInt8 b) c := by
  -- Every byte that is not ASCII is a code from 0x80 on.
  have hhigh {n : Nat} (hn : 0x80 ≤ n) (hn' : n < 0x100) (hc : 0x80 ≤ c.toNat) (hb : b = UInt8.ofNat n) :
      Looks (Char.ofUInt8 b) c := by
    refine .inr ⟨?_, hc⟩
    rw [toNat_ofUInt8, hb, UInt8.toNat_ofNat', Nat.mod_eq_of_lt hn']
    exact hn
  rw [String.utf8EncodeChar] at hb
  split at hb
  · next hascii =>
    obtain rfl := List.mem_singleton.1 hb
    left
    rw [← Char.toNat_inj, toNat_ofUInt8, UInt8.toNat_ofNat']
    exact Nat.mod_eq_of_lt (by omega)
  · next hascii =>
    have hc : 0x80 ≤ c.toNat := Nat.lt_of_not_le hascii
    split at hb
    · simp only [List.mem_cons, List.not_mem_nil, or_false] at hb
      rcases hb with hb | hb <;> exact hhigh (by omega) (by omega) hc hb
    · split at hb
      · simp only [List.mem_cons, List.not_mem_nil, or_false] at hb
        rcases hb with hb | hb | hb <;> exact hhigh (by omega) (by omega) hc hb
      · simp only [List.mem_cons, List.not_mem_nil, or_false] at hb
        rcases hb with hb | hb | hb | hb <;> exact hhigh (by omega) (by omega) hc hb

theorem ne_of_ascii {c a : Char} (hc : 0x80 ≤ c.toNat) (ha : a.toNat < 0x80) : c ≠ a := by
  rintro rfl
  omega

theorem isDigit_of_le {c : Char} (hc : 0x80 ≤ c.toNat) : c.isDigit = false := by
  refine Bool.eq_false_iff.2 fun h => ?_
  have hle : c ≤ '9' := of_decide_eq_true (Bool.and_eq_true_iff.1 h).2
  exact absurd (UInt32.le_iff_toNat_le.1 hle) (Nat.not_le.2 (Nat.lt_of_lt_of_le (by decide) hc))

theorem isAlpha_of_le {c : Char} (hc : 0x80 ≤ c.toNat) : c.isAlpha = false := by
  refine Bool.eq_false_iff.2 fun h => ?_
  have hle : c ≤ 'Z' ∨ c ≤ 'z' :=
    (Bool.or_eq_true_iff.1 h).imp (fun h => (of_decide_eq_true h).2)
      fun h => of_decide_eq_true (Bool.and_eq_true_iff.1 h).2
  rcases hle with hle | hle
  · exact absurd (UInt32.le_iff_toNat_le.1 hle) (Nat.not_le.2 (Nat.lt_of_lt_of_le (by decide) hc))
  · exact absurd (UInt32.le_iff_toNat_le.1 hle) (Nat.not_le.2 (Nat.lt_of_lt_of_le (by decide) hc))

namespace Looks

variable {u c a : Char}

theorem mem_iff (h : Looks u c) {as : List Char} (has : as.all (·.toNat < 0x80) = true) : u ∈ as ↔ c ∈ as := by
  rcases h with rfl | ⟨hu, hc⟩
  · rfl
  · have hnot {d : Char} (hd : 0x80 ≤ d.toNat) : d ∉ as := fun hmem =>
      absurd (of_decide_eq_true (List.all_eq_true.1 has d hmem)) (Nat.not_lt.2 hd)
    exact iff_of_false (hnot hu) (hnot hc)

theorem eq_iff (h : Looks u c) (ha : a.toNat < 0x80) : u = a ↔ c = a := by
  rw [← List.mem_singleton, h.mem_iff (by simpa using ha), List.mem_singleton]

theorem isWordChar_eq (h : Looks u c) : Sql.isWordChar u = Sql.isWordChar c := by
  rcases h with rfl | ⟨hu, hc⟩
  · rfl
  · simp [Sql.isWordChar, hu, hc]

theorem isAlpha_eq (h : Looks u c) : u.isAlpha = c.isAlpha := by
  rcases h with rfl | ⟨hu, hc⟩
  · rfl
  · rw [isAlpha_of_le hu, isAlpha_of_le hc]

theorem isDigit_eq (h : Looks u c) : u.isDigit = c.isDigit := by
  rcases h with rfl | ⟨hu, hc⟩
  · rfl
  · rw [isDigit_of_le hu, isDigit_of_le hc]

theorem le_of_le (h : Looks u c) (hc : 0x80 ≤ c.toNat) : 0x80 ≤ u.toNat := by
  rcases h with rfl | ⟨hu, -⟩
  · exact hc
  · exact hu

/-- The bytes of a character with more than one of them lie outside ASCII. -/
theorem le_of_one_lt (h : Looks u c) (hc : 1 < c.utf8Size) : 0x80 ≤ u.toNat := by
  refine h.le_of_le (Nat.le_of_not_lt fun hascii => ?_)
  rw [utf8Size_of_lt hascii] at hc
  exact Nat.lt_irrefl 1 hc

end Looks

/-! ## Bytes of a text -/

/-- The byte at an index, as the character with its code. -/
def byte? (text : String) (index : Nat) : Option Char := text.toUTF8.data[index]?.map Char.ofUInt8

theorem byte?_append {text : String} {pre cs : List Char} (htext : text.toList = pre ++ cs) (k : Nat) :
    byte? text (byteLength pre + k) = (bytes cs)[k]?.map Char.ofUInt8 := by
  rw [byte?, ← Array.getElem?_toList, toList_toUTF8, htext, bytes_append, ← length_bytes,
    List.getElem?_append_right (Nat.le_add_right ..), Nat.add_sub_cancel_left]

/-- Every byte of a character looks like it. -/
theorem exists_byte? {text : String} {pre cs : List Char} {c : Char} (htext : text.toList = pre ++ c :: cs) {k : Nat}
    (hk : k < c.utf8Size) : ∃ u, byte? text (byteLength pre + k) = some u ∧ Looks u c := by
  have hk' : k < (String.utf8EncodeChar c).length := by rwa [String.length_utf8EncodeChar]
  refine ⟨Char.ofUInt8 ((String.utf8EncodeChar c).get ⟨k, hk'⟩), ?_, looks_of_mem (List.get_mem _ _)⟩
  rw [byte?_append htext, bytes_cons, List.getElem?_append_left hk', List.getElem?_eq_getElem hk']
  rfl

/-- What does not tell a character from its bytes is the same for the byte at a place and the character there. -/
theorem map_byte? {α : Type} {f : Char → α} (hf : ∀ u c, Looks u c → f u = f c) {text : String} {pre cs : List Char}
    (htext : text.toList = pre ++ cs) : (byte? text (byteLength pre)).map f = cs.head?.map f := by
  cases cs with
  | nil =>
    rw [← Nat.add_zero (byteLength pre), byte?_append htext]
    rfl
  | cons c cs =>
    obtain ⟨u, hu, hlooks⟩ := exists_byte? htext c.utf8Size_pos
    rw [Nat.add_zero] at hu
    rw [hu, Option.map_some, hf u c hlooks, List.head?_cons, Option.map_some]

/-- A byte of ASCII between two characters is the next character. -/
theorem byte?_eq_some_iff {text : String} {pre cs : List Char} {a : Char} (htext : text.toList = pre ++ cs)
    (ha : a.toNat < 0x80) : byte? text (byteLength pre) = some a ↔ cs.head? = some a := by
  have hsame : (byte? text (byteLength pre)).map (· = a) = cs.head?.map (· = a) :=
    map_byte? (fun _ _ hlooks => propext (hlooks.eq_iff ha)) htext
  have hmap (c? : Option Char) : c? = some a ↔ c?.map (· = a) = some True := by simp
  rw [hmap, hmap, hsame]

end Text
end Routine
