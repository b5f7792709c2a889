import Routine.Statement

/-!
# How a datum is referred to

A variable, a record or a row with a name is referred to by its name. A row without one stands for
its members with commas between them, and a field for its record, a dot and its own name. So a
reference follows the table from datum to datum, and a table may lead back to where it came from.

`Function.referenceAt` keeps the data that it is in the middle of. A datum that it comes back to, like
a number that the table does not have, gets a placeholder. Each datum it enters is one that it was not
in before, and there are only so many, which is why it ends on every table.
-/

namespace Routine

/-- Fewer items of a list have the stronger property, when one has only the weaker. -/
theorem countP_lt_countP {α : Type} {p q : α → Bool} (a : α) : (l : List α) → a ∈ l →
    q a = true → p a = false → (∀ x, p x = true → q x = true) → l.countP p < l.countP q
  | [], hmem, _, _, _ => by cases hmem
  | b :: bs, hmem, hq, hp, himp => by
    rcases List.mem_cons.1 hmem with rfl | hmem
    · have hle : bs.countP p ≤ bs.countP q := List.countP_mono_left fun x _ => himp x
      simp only [List.countP_cons, hq, hp]
      simpa using Nat.lt_succ_of_le hle
    · have hlt := countP_lt_countP a bs hmem hq hp himp
      simp only [List.countP_cons]
      cases hb : p b with
      | true => simpa [himp b hb] using hlt
      | false =>
        have hle : bs.countP q ≤ bs.countP q + (if q b = true then 1 else 0) := Nat.le_add_right ..
        simpa using Nat.lt_of_lt_of_le hlt hle

/-- What stands for a number that leads to no name. -/
def placeholder (number : Int32) : String :=
  "__datum_" ++ toString number.toInt

namespace Function

variable (f : Function)

/-- The place of a number in the table. -/
def index? (number : Int32) : Option (Fin f.data.length) :=
  if h : 0 ≤ number ∧ number.toInt.toNat < f.data.length then some ⟨number.toInt.toNat, h.2⟩ else none

/-- The datum with a number is the one in its place. -/
theorem datum?_eq_map_index? (number : Int32) : f.datum? number = (f.index? number).map f.data.get := by
  unfold datum? index?
  split <;> split <;> simp_all

/-- Number of data that a reference is not in the middle of. -/
def free (visiting : List (Fin f.data.length)) : Nat :=
  (List.finRange f.data.length).countP fun i => !visiting.contains i

/-- Entering a datum leaves fewer free. -/
theorem free_cons_lt {i : Fin f.data.length} {visiting : List (Fin f.data.length)} (h : i ∉ visiting) :
    f.free (i :: visiting) < f.free visiting := by
  apply countP_lt_countP i _ (List.mem_finRange i)
  · simpa using h
  · simp
  · intro j hj
    simp only [List.contains_cons, Bool.not_or, Bool.and_eq_true] at hj
    exact hj.2

mutual

/-- The reference for a number, in the middle of the references for others. -/
def referenceAt (visiting : List (Fin f.data.length)) (number : Int32) : String :=
  match f.index? number with
  | none => placeholder number
  | some i => if i ∈ visiting then placeholder number else referenceIn (i :: visiting) (f.data.get i)
termination_by (f.free visiting, 0)
decreasing_by exact Prod.Lex.left _ _ (f.free_cons_lt (by assumption))

/-- The reference for a datum, in the middle of the references for others. -/
def referenceIn (visiting : List (Fin f.data.length)) : Datum → String
  | .scalar v => v.name
  | .record r => r.name
  | .row r =>
    if r.isUnnamed then
      String.intercalate ", " (r.members.map fun m =>
        match f.index? m.number with
        | none => m.name
        | some _ => referenceAt visiting m.number)
    else r.name
  | .field a => referenceAt visiting a.record ++ "." ++ a.name
termination_by (f.free visiting, 1)
decreasing_by all_goals exact Prod.Lex.right _ Nat.one_pos

end

/-- The reference for the datum with a number. -/
def reference (number : Int32) : String :=
  f.referenceAt [] number

/-- The reference for a datum that stands in a statement. -/
def referenceFor (d : Datum) : String :=
  f.referenceIn [] d

end Function
end Routine
