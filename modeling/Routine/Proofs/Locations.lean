import Routine.Proofs.Bytes
import Routine.Text.Location

/-!
# Places and offsets

Reading a text passes through a place for every front of it. The line never goes back and within a line the column only
goes on, so no place comes twice (`Text.Location.after_cons_ne`). The first place that is the one looked for is then the
only one, and its offset is the length of the front (`Text.Location.offsetFrom_after`). A place that the text does not
have is looked for to the end.
-/

namespace Routine
namespace Text
namespace Location

theorem after_cons (l : Location) (c : Char) (cs : List Char) : l.after (c :: cs) = (l.advance c).after cs := rfl

/-- Reading goes on to a later line, or to a later column of the line. -/
theorem after_cases (l : Location) (cs : List Char) :
    l.line < (l.after cs).line ∨ l.line = (l.after cs).line ∧ l.column + cs.length = (l.after cs).column := by
  induction cs generalizing l with
  | nil => exact .inr ⟨rfl, rfl⟩
  | cons c cs ih =>
    rw [after_cons]
    have hrest := ih (l.advance c)
    by_cases hc : c = '\n'
    · have hadvance : l.advance c = ⟨l.line + 1, 1⟩ := if_pos hc
      rw [hadvance] at hrest ⊢
      dsimp only at hrest
      omega
    · have hadvance : l.advance c = ⟨l.line, l.column + 1⟩ := if_neg hc
      rw [hadvance] at hrest ⊢
      dsimp only at hrest
      rw [List.length_cons]
      omega

/-- No place comes twice. -/
theorem after_cons_ne (l : Location) (c : Char) (cs : List Char) : l.after (c :: cs) ≠ l := by
  intro hsame
  have hcases := l.after_cases (c :: cs)
  rw [hsame, List.length_cons] at hcases
  omega

/-- The place after a front is found behind the front. -/
theorem offsetFrom_after (here : Location) (front back : List Char) :
    offsetFrom (here.after front) here (front ++ back) = byteLength front := by
  induction front generalizing here with
  | nil =>
    cases back with
    | nil => rfl
    | cons c cs => exact if_pos rfl
  | cons c front ih =>
    have hlater : here ≠ here.after (c :: front) := (here.after_cons_ne c front).symm
    rw [List.cons_append, offsetFrom, if_neg hlater, after_cons, ih, byteLength]

/-- The search ends behind a front of the text: in the place, or at the end. -/
theorem exists_offsetFrom (target here : Location) (cs : List Char) :
    ∃ front back, cs = front ++ back ∧ offsetFrom target here cs = byteLength front ∧
      (here.after front = target ∨ back = []) := by
  induction cs generalizing here with
  | nil => exact ⟨[], [], rfl, rfl, .inr rfl⟩
  | cons c cs ih =>
    rw [offsetFrom]
    split
    · next hhere => exact ⟨[], c :: cs, rfl, rfl, .inl hhere⟩
    · obtain ⟨front, back, rfl, hoffset, hend⟩ := ih (here.advance c)
      exact ⟨c :: front, back, rfl, by rw [hoffset, byteLength], hend⟩

end Location
end Text

open Text (Location)

/-- **An offset undoes the counting of lines and columns**: the place after a front of a text has the length of the
front for its offset. The offset of any place whatsoever lies between two characters of the text. It is that of a front
whose reading ends in the place, or the end of the text if there is none. -/
theorem offsets_invert_counting :
    (∀ a b : String, (Location.start.after a.toList).offsetAt (a ++ b) = a.utf8ByteSize) ∧
    ∀ (text : String) (place : Location),
      place.offsetAt text ≤ text.utf8ByteSize ∧
      (⟨place.offsetAt text⟩ : String.Pos.Raw).IsValid text ∧
      ((∃ a b : String, text = a ++ b ∧ Location.start.after a.toList = place) ∨
        place.offsetAt text = text.utf8ByteSize) := by
  refine ⟨fun a b => ?_, fun text place => ?_⟩
  · rw [Location.offsetAt, String.toList_append, Location.offsetFrom_after, Text.byteLength_toList]
  · obtain ⟨front, back, htext, hoffset, hend⟩ := place.exists_offsetFrom .start text.toList
    have hvalid : (⟨place.offsetAt text⟩ : String.Pos.Raw).IsValid text := by
      rw [Location.offsetAt, hoffset]
      exact Text.isValid_byteLength htext
    refine ⟨hvalid.le_utf8ByteSize, hvalid, ?_⟩
    rcases hend with hreached | rfl
    · refine .inl ⟨String.ofList front, String.ofList back, ?_, ?_⟩
      · rw [← String.ofList_append, ← htext, String.ofList_toList]
      · rw [String.toList_ofList, hreached]
    · right
      rw [Location.offsetAt, hoffset, ← Text.byteLength_toList, htext, List.append_nil]

end Routine
