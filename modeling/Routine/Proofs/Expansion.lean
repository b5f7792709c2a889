import Mathlib.Data.FinEnum
import Mathlib.Data.Fintype.Card
import Mathlib.Logic.Relation
import Routine.Reference

/-!
# References without circles

A row without a name leads to the data of its members, and a field to its record. Where no circle can be reached, what
a datum stands for can be spelled out by going where it leads, with no account of where one has been
(`Function.expansion`). It ends because a table has only so many data (`Function.wellFounded_leadsTo`).

`Function.referenceAt` keeps an account, and puts a placeholder wherever it would come back. The data that it is in the
middle of all lead to the one it is at. So where no circle can be reached it never meets one of them again, even if
several members lead to one datum: that one has been left before it is entered once more
(`Function.IsAcyclic.avoids_cons`).
-/

namespace Routine

/-- The numbers that a datum leads to: those of the members of a row without a name, and that of the record of a
field. -/
def Datum.leads : Datum → List Int32
  | scalar _ => []
  | record _ => []
  | row r => if r.isUnnamed then r.members.map Member.number else []
  | field a => [a.record]

namespace Function

open Relation (ReflTransGen TransGen)

/-! ## Where data lead -/

/-- The datum with the first number leads to the second number, and the table has a datum with that one. -/
structure LeadsTo (f : Function) (number other : Int32) : Prop where
  leads : ∃ d, f.datum? number = some d ∧ other ∈ d.leads
  found : (f.datum? other).isSome = true

variable (f : Function)

/-- No circle can be reached from the number. -/
def IsAcyclic (number : Int32) : Prop :=
  ∀ other, ReflTransGen f.LeadsTo number other → ¬ TransGen f.LeadsTo other other

variable {f} {number other : Int32}

theorem LeadsTo.member {r : Row} {m : Member} (hdatum : f.datum? number = some (.row r))
    (hunnamed : r.isUnnamed = true) (hmember : m ∈ r.members) (hfound : (f.datum? m.number).isSome = true) :
    f.LeadsTo number m.number where
  leads := ⟨_, hdatum, by simpa [Datum.leads, hunnamed] using ⟨m, hmember, rfl⟩⟩
  found := hfound

theorem LeadsTo.record {a : FieldAccess} (hdatum : f.datum? number = some (.field a))
    (hfound : (f.datum? a.record).isSome = true) : f.LeadsTo number a.record where
  leads := ⟨_, hdatum, List.mem_singleton_self _⟩
  found := hfound

theorem IsAcyclic.of_leadsTo (h : f.IsAcyclic number) (hlead : f.LeadsTo number other) : f.IsAcyclic other :=
  fun _ hreach => h _ (.head hlead hreach)

theorem toInt_of_index? {i : Fin f.data.length} (h : f.index? number = some i) : number.toInt = i := by
  rw [index?] at h
  split at h
  · next hnumber =>
    obtain rfl := Option.some.inj h
    exact (Int.toNat_of_nonneg (Int32.le_iff_toInt_le.1 hnumber.1)).symm
  · cases h

/-- There are no circles where data lead only to places before their own. -/
theorem isAcyclic_of_lt (h : ∀ i : Fin f.data.length, (f.data.get i).leads.all fun other => other.toInt < i)
    (number : Int32) : f.IsAcyclic number := by
  have hstep : ∀ {number other}, f.LeadsTo number other → other.toInt < number.toInt := by
    rintro number other ⟨⟨d, hdatum, hother⟩, -⟩
    rw [datum?_eq_map_index?, Option.map_eq_some_iff] at hdatum
    obtain ⟨i, hi, rfl⟩ := hdatum
    rw [toInt_of_index? hi]
    exact of_decide_eq_true (List.all_eq_true.1 (h i) other hother)
  have hpath : ∀ {number other}, TransGen f.LeadsTo number other → other.toInt < number.toInt := by
    intro number other hpath
    induction hpath with
    | single hlead => exact hstep hlead
    | tail _ hlead ih => exact Int.lt_trans (hstep hlead) ih
  intro other _ hcircle
  exact Int.lt_irrefl _ (hpath hcircle)

/-- Of the numbers without circles there are only so many, and none comes back to itself. -/
theorem wellFounded_leadsTo (f : Function) :
    WellFounded fun other number : { n // f.IsAcyclic n } => f.LeadsTo number other := by
  let below : { n // f.IsAcyclic n } → { n // f.IsAcyclic n } → Prop :=
    fun other number => TransGen f.LeadsTo number other
  have : IsTrans _ below := ⟨fun _ _ _ hab hbc => TransGen.trans hbc hab⟩
  have : Std.Irrefl below := ⟨fun number hcircle => number.2 number .refl hcircle⟩
  have hbelow : WellFounded below := Finite.wellFounded_of_trans_of_irrefl below
  exact Subrelation.wf (fun hlead => TransGen.single hlead) hbelow

instance (f : Function) : WellFoundedRelation { n // f.IsAcyclic n } :=
  ⟨_, f.wellFounded_leadsTo⟩

/-- What a number without circles stands for: a name, the members of a row without one with commas between them, the
record of a field with the field behind a dot, or a placeholder. -/
def expansion (f : Function) (number : { n // f.IsAcyclic n }) : String :=
  match hdatum : f.datum? number with
  | none => placeholder number
  | some (.scalar v) => v.name
  | some (.record r) => r.name
  | some (.row r) =>
    if hunnamed : r.isUnnamed = true then
      String.intercalate ", " (r.members.attach.map fun m : { m // m ∈ r.members } =>
        if hfound : (f.datum? m.1.number).isSome = true then
          f.expansion ⟨m.1.number, number.2.of_leadsTo (.member hdatum hunnamed m.2 hfound)⟩
        else m.1.name)
    else r.name
  | some (.field a) =>
    if hfound : (f.datum? a.record).isSome = true then
      f.expansion ⟨a.record, number.2.of_leadsTo (.record hdatum hfound)⟩ ++ "." ++ a.name
    else placeholder a.record ++ "." ++ a.name
termination_by number
decreasing_by
  · exact LeadsTo.member hdatum hunnamed m.2 hfound
  · exact LeadsTo.record hdatum hfound

/-! ## Where references go -/

theorem isSome_datum? (number : Int32) : (f.datum? number).isSome = (f.index? number).isSome := by
  rw [datum?_eq_map_index?, Option.isSome_map]

/-- None of the places can be reached from the number. -/
def Avoids (f : Function) (number : Int32) (visiting : List (Fin f.data.length)) : Prop :=
  ∀ other, ReflTransGen f.LeadsTo number other → ∀ i ∈ visiting, f.index? other ≠ some i

/-- A datum that is entered is not reached again from where it leads. -/
theorem IsAcyclic.avoids_cons {visiting : List (Fin f.data.length)} (h : f.IsAcyclic number)
    (havoids : f.Avoids number visiting) {i : Fin f.data.length} (hi : f.index? number = some i)
    (hlead : f.LeadsTo number other) : f.Avoids other (i :: visiting) := by
  intro reached hreach j hj hindex
  rcases List.mem_cons.1 hj with rfl | hlater
  · obtain rfl : number = reached :=
      Int32.toInt_inj.1 ((toInt_of_index? hi).trans (toInt_of_index? hindex).symm)
    exact h number .refl (TransGen.head' hlead hreach)
  · exact havoids reached (.head hlead hreach) j hlater hindex

theorem expansion_of_missing (number : { n // f.IsAcyclic n }) (h : f.datum? number = none) :
    f.expansion number = placeholder number := by
  rw [expansion]
  split
  · rfl
  all_goals
    next hdatum =>
      rw [h] at hdatum
      cases hdatum

/-- The step: a datum is spelled out in the middle of any references, if the data it leads to are. -/
theorem referenceIn_eq_expansion {visiting : List (Fin f.data.length)} (h : f.IsAcyclic number) {d : Datum}
    (hdatum : f.datum? number = some d)
    (hleads : ∀ other (hlead : f.LeadsTo number other),
      f.referenceAt visiting other = f.expansion ⟨other, h.of_leadsTo hlead⟩) :
    f.referenceIn visiting d = f.expansion ⟨number, h⟩ := by
  rw [expansion]
  split
  · next hnone =>
    rw [hnone] at hdatum
    cases hdatum
  · next v hscalar =>
    obtain rfl := Option.some.inj (hdatum.symm.trans hscalar)
    rw [referenceIn]
  · next r hrecord =>
    obtain rfl := Option.some.inj (hdatum.symm.trans hrecord)
    rw [referenceIn]
  · next r hrow =>
    obtain rfl := Option.some.inj (hdatum.symm.trans hrow)
    rw [referenceIn]
    split
    · next hunnamed =>
      refine congrArg _ ?_
      -- The expansion goes through the members together with the fact that each is one of the row.
      conv_lhs => rw [← List.attach_map_subtype_val r.members, List.map_map]
      refine List.map_congr_left ?_
      rintro ⟨m, hm⟩ -
      split
      · next hfound =>
        obtain ⟨i, hi⟩ := Option.isSome_iff_exists.1 (isSome_datum? m.number ▸ hfound)
        simp only [Function.comp_apply, hi]
        exact hleads m.number (.member hrow hunnamed hm hfound)
      · next hmissing =>
        have hnone : f.index? m.number = none := by simpa [isSome_datum?] using hmissing
        simp only [Function.comp_apply, hnone]
    · rfl
  · next a hfield =>
    obtain rfl := Option.some.inj (hdatum.symm.trans hfield)
    rw [referenceIn]
    split
    · next hfound => rw [hleads a.record (.record hfield hfound)]
    · next hmissing =>
      have hnone : f.index? a.record = none := by simpa [isSome_datum?] using hmissing
      rw [referenceAt, hnone]

/-- The run: in the middle of references that do not come up again, a number without circles is spelled out. -/
theorem referenceAt_eq_expansion (h : f.IsAcyclic number) {visiting : List (Fin f.data.length)}
    (havoids : f.Avoids number visiting) : f.referenceAt visiting number = f.expansion ⟨number, h⟩ := by
  have hrun : ∀ (number : { n // f.IsAcyclic n }) (visiting : List (Fin f.data.length)),
      f.Avoids number visiting → f.referenceAt visiting number = f.expansion number := by
    intro number
    -- Down the numbers that a number leads to, which ends without circles. What is being visited grows on the
    -- way, and stays apart from all that is still ahead.
    induction number using f.wellFounded_leadsTo.induction with
    | h number ih =>
      intro visiting havoids
      cases hi : f.index? number with
      | none =>
        have hnone : f.datum? number = none := by rw [datum?_eq_map_index?, hi, Option.map_none]
        rw [referenceAt, hi, expansion_of_missing number hnone]
      | some i =>
        have hdatum : f.datum? number = some (f.data.get i) := by rw [datum?_eq_map_index?, hi, Option.map_some]
        have hnew : i ∉ visiting := fun hmem => havoids number .refl i hmem hi
        rw [referenceAt, hi]
        simp only [if_neg hnew]
        refine referenceIn_eq_expansion number.2 hdatum ?_
        intro other hlead
        exact ih ⟨other, number.2.of_leadsTo hlead⟩ hlead _ (number.2.avoids_cons havoids hi hlead)
  exact hrun ⟨number, h⟩ visiting havoids

end Function

/-- **Where there are no circles, the account of where a reference has been is not seen.** -/
theorem references_without_circles_are_plain {f : Function} {number : Int32} (h : f.IsAcyclic number) :
    f.reference number = f.expansion ⟨number, h⟩ ∧
      ∀ d, f.datum? number = some d → f.referenceFor d = f.reference number := by
  have hnone : ∀ other, f.Avoids other [] := fun _ _ _ _ hi => nomatch hi
  refine ⟨Function.referenceAt_eq_expansion h (hnone number), ?_⟩
  intro d hdatum
  rw [Function.reference, Function.referenceAt_eq_expansion h (hnone number)]
  exact Function.referenceIn_eq_expansion h hdatum fun other hlead =>
    Function.referenceAt_eq_expansion (h.of_leadsTo hlead) (hnone other)

/-! ### A row with the same member twice -/

/-- A variable, a record with a field, a row of both and of a member that the table does not have, and a row that has
the first row twice. -/
def sharedMembers : Function :=
  ⟨[.scalar ⟨"a", 1, none, false, false, none, none, none, 0⟩,
      .record ⟨"r", none, 1, none⟩,
      .field ⟨"id", 1⟩,
      .row ⟨unnamedRow, 2, [⟨"a", 0⟩, ⟨"id", 2⟩, ⟨"gone", -1⟩]⟩,
      .row ⟨unnamedRow, 2, [⟨"x", 3⟩, ⟨"y", 3⟩]⟩],
    ⟨3, none, [], none⟩⟩

theorem references_without_circles_are_plain_sharedMembers :
    ∃ h : sharedMembers.IsAcyclic 4,
      sharedMembers.expansion ⟨4, h⟩ = "a, r.id, gone, a, r.id, gone" ∧
        sharedMembers.referenceFor (.row ⟨unnamedRow, 2, [⟨"x", 3⟩, ⟨"y", 3⟩]⟩) =
          "a, r.id, gone, a, r.id, gone" := by
  have hacyclic : sharedMembers.IsAcyclic 4 := Function.isAcyclic_of_lt (by decide +kernel) 4
  have href : sharedMembers.reference 4 = "a, r.id, gone, a, r.id, gone" := by cbv
  obtain ⟨hplain, hfor⟩ := references_without_circles_are_plain hacyclic
  exact ⟨hacyclic, hplain ▸ href, (hfor _ rfl).trans href⟩

end Routine
