import Routine.Proofs.Expansion

/-!
# References through circles

A table may lead in circles, and then nothing that is looked at gets smaller from one datum to the next. What ends a
reference is the list of the numbers that it is in the middle of. The list is one for the whole reference: a number is
put in front when its datum is entered, and the front is taken off when its text is there. `Function.RefersAt` and
`Function.RefersIn` say what comes of that, with the list before and after.

Each reference leaves the list as it found it (`Function.RefersAt.outcome`). So the members of a row all start from the
same list, and the only call that changes it is the one that enters a datum (`Function.Makes`). It enters none that is
in the list, which leaves fewer that it can enter (`Function.wellFounded_makes`). That the calls end is all that is
needed for a text, and it is the text of `Function.referenceAt`, which keeps the same account in places of the table.
-/

namespace Routine
namespace Function

open Relation (ReflTransGen)

/-! ## References with one list -/

mutual

/-- In the middle of the numbers of the first list, latest first, a number gives the text and leaves the second list. -/
inductive RefersAt (f : Function) : List Int32 → Int32 → String → List Int32 → Prop
  | missing {visiting : List Int32} {number : Int32} (hdatum : f.datum? number = none) :
    RefersAt f visiting number (placeholder number) visiting
  | repeated {visiting : List Int32} {number : Int32} {d : Datum} (hdatum : f.datum? number = some d)
    (hmem : number ∈ visiting) : RefersAt f visiting number (placeholder number) visiting
  | entered {visiting left : List Int32} {number : Int32} {d : Datum} {text : String}
    (hdatum : f.datum? number = some d) (hnew : number ∉ visiting)
    (hin : RefersIn f (number :: visiting) d text left) : RefersAt f visiting number text left.tail

/-- In the middle of the numbers of the first list, a datum gives the text and leaves the second list. -/
inductive RefersIn (f : Function) : List Int32 → Datum → String → List Int32 → Prop
  | scalar {visiting : List Int32} {v : Variable} : RefersIn f visiting (.scalar v) v.name visiting
  | record {visiting : List Int32} {r : RecordVariable} : RefersIn f visiting (.record r) r.name visiting
  | named {visiting : List Int32} {r : Row} (hnamed : r.isUnnamed = false) :
    RefersIn f visiting (.row r) r.name visiting
  | unnamed {visiting left : List Int32} {r : Row} {texts : List String} (hunnamed : r.isUnnamed = true)
    (hmembers : RefersMembers f visiting r.members texts left) :
    RefersIn f visiting (.row r) (String.intercalate ", " texts) left
  | field {visiting left : List Int32} {a : FieldAccess} {text : String}
    (hat : RefersAt f visiting a.record text left) : RefersIn f visiting (.field a) (text ++ "." ++ a.name) left

/-- Members one after the other, each from the list that the one before it left. -/
inductive RefersMembers (f : Function) : List Int32 → List Member → List String → List Int32 → Prop
  | nil {visiting : List Int32} : RefersMembers f visiting [] [] visiting
  | missing {visiting left : List Int32} {m : Member} {ms : List Member} {texts : List String}
    (hdatum : f.datum? m.number = none) (hrest : RefersMembers f visiting ms texts left) :
    RefersMembers f visiting (m :: ms) (m.name :: texts) left
  | found {visiting between left : List Int32} {m : Member} {ms : List Member} {text : String} {texts : List String}
    (hfound : (f.datum? m.number).isSome = true) (hat : RefersAt f visiting m.number text between)
    (hrest : RefersMembers f between ms texts left) : RefersMembers f visiting (m :: ms) (text :: texts) left

end

/-! ## Calls -/

/-- What is asked for, with the list at that time. -/
inductive Call where
  | number (visiting : List Int32) (number : Int32)
  | datum (visiting : List Int32) (d : Datum)

/-- The numbers that a call is in the middle of. -/
def Call.visiting : Call → List Int32
  | .number visiting _ => visiting
  | .datum visiting _ => visiting

/-- The first call makes the second before it has its text. A member is called for with the list that the members before
it left. -/
inductive Makes (f : Function) : Call → Call → Prop
  | enter {visiting : List Int32} {number : Int32} {d : Datum} (hdatum : f.datum? number = some d)
    (hnew : number ∉ visiting) : Makes f (.number visiting number) (.datum (number :: visiting) d)
  | member {visiting now : List Int32} {r : Row} {before after : List Member} {m : Member} {texts : List String}
    (hunnamed : r.isUnnamed = true) (hmembers : r.members = before ++ m :: after)
    (hbefore : f.RefersMembers visiting before texts now) (hfound : (f.datum? m.number).isSome = true) :
    Makes f (.datum visiting (.row r)) (.number now m.number)
  | record {visiting : List Int32} {a : FieldAccess} :
    Makes f (.datum visiting (.field a)) (.number visiting a.record)

/-! ## Numbers and places -/

/-- The places of the numbers that the table has. -/
def indices (f : Function) (visiting : List Int32) : List (Fin f.data.length) :=
  visiting.filterMap f.index?

/-- What stands for a member of a row, in the middle of the references for others. -/
def memberText (f : Function) (visiting : List (Fin f.data.length)) (m : Member) : String :=
  match f.index? m.number with
  | none => m.name
  | some _ => f.referenceAt visiting m.number

variable {f : Function} {number : Int32} {visiting left : List Int32} {text : String} {d : Datum}

theorem index?_inj {other : Int32} {i : Fin f.data.length} (h : f.index? number = some i)
    (h' : f.index? other = some i) : number = other :=
  Int32.toInt_inj.1 ((toInt_of_index? h).trans (toInt_of_index? h').symm)

theorem mem_indices_iff {i : Fin f.data.length} (h : f.index? number = some i) :
    i ∈ f.indices visiting ↔ number ∈ visiting := by
  rw [indices, List.mem_filterMap]
  constructor
  · rintro ⟨other, hmem, hother⟩
    rwa [index?_inj h hother]
  · intro hmem
    exact ⟨number, hmem, h⟩

theorem indices_cons {i : Fin f.data.length} (h : f.index? number = some i) :
    f.indices (number :: visiting) = i :: f.indices visiting :=
  List.filterMap_cons_some h

theorem index?_eq_none (h : f.datum? number = none) : f.index? number = none := by
  rwa [datum?_eq_map_index?, Option.map_eq_none_iff] at h

theorem exists_index? (h : f.datum? number = some d) : ∃ i, f.index? number = some i ∧ f.data.get i = d := by
  rwa [datum?_eq_map_index?, Option.map_eq_some_iff] at h

/-! ## A reference leaves the list as it found it -/

theorem referenceAt_of_missing (h : f.datum? number = none) (v : List (Fin f.data.length)) :
    f.referenceAt v number = placeholder number := by
  rw [referenceAt, index?_eq_none h]

theorem referenceAt_of_mem (hmem : number ∈ visiting) :
    f.referenceAt (f.indices visiting) number = placeholder number := by
  rw [referenceAt]
  split
  · rfl
  · next i hi => rw [if_pos ((mem_indices_iff hi).2 hmem)]

theorem referenceAt_of_not_mem (hdatum : f.datum? number = some d) (hnew : number ∉ visiting) :
    f.referenceAt (f.indices visiting) number = f.referenceIn (f.indices (number :: visiting)) d := by
  obtain ⟨i, hi, rfl⟩ := exists_index? hdatum
  have hplace : i ∉ f.indices visiting := (mem_indices_iff hi).not.2 hnew
  rw [referenceAt, hi, indices_cons hi]
  exact if_neg hplace

theorem referenceIn_of_unnamed {r : Row} (h : r.isUnnamed = true) (v : List (Fin f.data.length)) :
    f.referenceIn v (.row r) = String.intercalate ", " (r.members.map (f.memberText v)) := by
  rw [referenceIn, if_pos h]
  rfl

theorem memberText_of_found {m : Member} (h : (f.datum? m.number).isSome = true) (v : List (Fin f.data.length)) :
    f.memberText v m = f.referenceAt v m.number := by
  obtain ⟨i, hi⟩ := Option.isSome_iff_exists.1 (isSome_datum? m.number ▸ h)
  rw [memberText, hi]

-- The induction is on how the text comes about. Text and list are taken together, since what a member gives depends on
-- the list that the members before it left.
mutual

theorem RefersAt.outcome {number : Int32} {visiting left : List Int32} {text : String} :
    f.RefersAt visiting number text left → text = f.referenceAt (f.indices visiting) number ∧ left = visiting
  | .missing hdatum => ⟨(referenceAt_of_missing hdatum _).symm, rfl⟩
  | .repeated _ hmem => ⟨(referenceAt_of_mem hmem).symm, rfl⟩
  | .entered hdatum hnew hin => by
    obtain ⟨rfl, rfl⟩ := hin.outcome
    exact ⟨(referenceAt_of_not_mem hdatum hnew).symm, rfl⟩

theorem RefersIn.outcome {d : Datum} {visiting left : List Int32} {text : String} :
    f.RefersIn visiting d text left → text = f.referenceIn (f.indices visiting) d ∧ left = visiting
  | .scalar => by rw [referenceIn]; exact ⟨rfl, rfl⟩
  | .record => by rw [referenceIn]; exact ⟨rfl, rfl⟩
  | .named hnamed => by rw [referenceIn, hnamed]; exact ⟨rfl, rfl⟩
  | .unnamed hunnamed hmembers => by
    obtain ⟨rfl, rfl⟩ := hmembers.outcome
    exact ⟨(referenceIn_of_unnamed hunnamed _).symm, rfl⟩
  | .field hat => by
    obtain ⟨rfl, rfl⟩ := hat.outcome
    rw [referenceIn]
    exact ⟨rfl, rfl⟩

theorem RefersMembers.outcome {ms : List Member} {visiting left : List Int32} {texts : List String} :
    f.RefersMembers visiting ms texts left → texts = ms.map (f.memberText (f.indices visiting)) ∧ left = visiting
  | .nil => ⟨rfl, rfl⟩
  | .missing hdatum hrest => by
    obtain ⟨rfl, rfl⟩ := hrest.outcome
    rw [List.map_cons, memberText, index?_eq_none hdatum]
    exact ⟨rfl, rfl⟩
  | .found hfound hat hrest => by
    obtain ⟨rfl, rfl⟩ := hat.outcome
    obtain ⟨rfl, rfl⟩ := hrest.outcome
    rw [List.map_cons, memberText_of_found hfound]
    exact ⟨rfl, rfl⟩

end

/-! ## The calls end -/

/-- How much is left to enter; a datum comes before the numbers that it leads to. -/
def Call.size (f : Function) : Call → Nat
  | .number visiting _ => 2 * f.free (f.indices visiting)
  | .datum visiting _ => 2 * f.free (f.indices visiting) + 1

theorem Makes.size_lt {outer inner : Call} (h : f.Makes outer inner) : inner.size f < outer.size f := by
  cases h with
  | @enter visiting number d hdatum hnew =>
    obtain ⟨i, hi, -⟩ := exists_index? hdatum
    have hplace : i ∉ f.indices visiting := (mem_indices_iff hi).not.2 hnew
    have hfree := f.free_cons_lt hplace
    simp only [Call.size, indices_cons hi]
    omega
  | member _ _ hbefore _ =>
    -- The members before have put the list back, so nothing but the kind of call has changed.
    obtain ⟨-, rfl⟩ := hbefore.outcome
    exact Nat.lt_succ_self _
  | record => exact Nat.lt_succ_self _

theorem wellFounded_makes (f : Function) : WellFounded fun inner outer => f.Makes outer inner :=
  Subrelation.wf Makes.size_lt (measure (Call.size f)).wf

/-! ### Each call has its text -/

theorem exists_refersMembers {ms : List Member}
    (h : ∀ before m after texts now, ms = before ++ m :: after → f.RefersMembers visiting before texts now →
      (f.datum? m.number).isSome = true → ∃ text left, f.RefersAt now m.number text left) :
    ∃ texts left, f.RefersMembers visiting ms texts left := by
  induction ms generalizing visiting with
  | nil => exact ⟨[], visiting, .nil⟩
  | cons m ms ih =>
    cases hdatum : f.datum? m.number with
    | none =>
      obtain ⟨texts, left, hrest⟩ := ih fun before _ after _ _ hms hbefore =>
        h (m :: before) _ after _ _ (congrArg (m :: ·) hms) (.missing hdatum hbefore)
      exact ⟨_, left, .missing hdatum hrest⟩
    | some d =>
      have hfound : (f.datum? m.number).isSome = true := by rw [hdatum]; rfl
      obtain ⟨text, between, hat⟩ := h [] m ms [] visiting rfl .nil hfound
      obtain ⟨texts, left, hrest⟩ := ih fun before _ after _ _ hms hbefore =>
        h (m :: before) _ after _ _ (congrArg (m :: ·) hms) (.found hfound hat hbefore)
      exact ⟨_, left, .found hfound hat hrest⟩

/-- The call has a text, and leaves some list. -/
def Call.Ends (f : Function) : Call → Prop
  | .number visiting n => ∃ text left, f.RefersAt visiting n text left
  | .datum visiting d => ∃ text left, f.RefersIn visiting d text left

-- The induction is on the calls. Nothing is said here about the lists that they leave.
theorem Call.ends (f : Function) (c : Call) : c.Ends f := by
  induction c using (wellFounded_makes f).induction with
  | h c ih =>
    cases c with
    | number visiting n =>
      cases hdatum : f.datum? n with
      | none => exact ⟨_, _, .missing hdatum⟩
      | some d =>
        by_cases hmem : n ∈ visiting
        · exact ⟨_, _, .repeated hdatum hmem⟩
        · obtain ⟨text, left, hin⟩ := ih _ (.enter hdatum hmem)
          exact ⟨text, left.tail, .entered hdatum hmem hin⟩
    | datum visiting d =>
      cases d with
      | scalar v => exact ⟨_, _, .scalar⟩
      | record r => exact ⟨_, _, .record⟩
      | row r =>
        cases hunnamed : r.isUnnamed with
        | false => exact ⟨_, _, .named hunnamed⟩
        | true =>
          obtain ⟨texts, left, hmembers⟩ := exists_refersMembers fun _ _ _ _ _ hms hbefore hfound =>
            ih _ (.member hunnamed hms hbefore hfound)
          exact ⟨_, left, .unnamed hunnamed hmembers⟩
      | field a =>
        obtain ⟨text, left, hat⟩ := ih _ .record
        exact ⟨_, left, .field hat⟩

theorem refersAt_iff : f.RefersAt visiting number text left ↔
    text = f.referenceAt (f.indices visiting) number ∧ left = visiting := by
  refine ⟨RefersAt.outcome, ?_⟩
  rintro ⟨rfl, rfl⟩
  obtain ⟨text, left, h⟩ := Call.ends f (.number left number)
  obtain ⟨rfl, rfl⟩ := h.outcome
  exact h

theorem refersIn_iff : f.RefersIn visiting d text left ↔
    text = f.referenceIn (f.indices visiting) d ∧ left = visiting := by
  refine ⟨RefersIn.outcome, ?_⟩
  rintro ⟨rfl, rfl⟩
  obtain ⟨text, left, h⟩ := Call.ends f (.datum left d)
  obtain ⟨rfl, rfl⟩ := h.outcome
  exact h

/-! ## What the list holds -/

/-- The numbers are all different, and the table has them all. -/
structure Apart (f : Function) (visiting : List Int32) : Prop where
  nodup : visiting.Nodup
  inTable : ∀ n ∈ visiting, 0 ≤ n.toInt ∧ n.toInt < f.data.length

theorem Apart.length_le (h : f.Apart visiting) : visiting.length ≤ f.data.length := by
  have hnodup : (visiting.map fun n => n.toInt.toNat).Nodup := by
    refine h.nodup.map_on fun n hn k hk heq => Int32.toInt_inj.1 ?_
    have hn' := (h.inTable n hn).1
    have hk' := (h.inTable k hk).1
    omega
  have hsubset : (visiting.map fun n => n.toInt.toNat) ⊆ List.range f.data.length := by
    intro place hplace
    obtain ⟨n, hn, rfl⟩ := List.mem_map.1 hplace
    have hn' := h.inTable n hn
    exact List.mem_range.2 (by omega)
  simpa using (List.subperm_of_subset hnodup hsubset).length_le

/-- The step: a call passes on numbers that are apart. -/
theorem Makes.apart {outer inner : Call} (h : f.Makes outer inner) (hapart : f.Apart outer.visiting) :
    f.Apart inner.visiting := by
  cases h with
  | enter hdatum hnew =>
    obtain ⟨i, hi, -⟩ := exists_index? hdatum
    refine ⟨List.nodup_cons.2 ⟨hnew, hapart.nodup⟩, List.forall_mem_cons.2 ⟨?_, hapart.inTable⟩⟩
    rw [toInt_of_index? hi]
    exact ⟨Int.natCast_nonneg _, Int.ofNat_lt.2 i.2⟩
  | member _ _ hbefore _ =>
    obtain ⟨-, rfl⟩ := hbefore.outcome
    exact hapart
  | record => exact hapart

/-- The run: so do all calls that follow from it. -/
theorem apart_of_reach {start call : Call} (h : ReflTransGen f.Makes start call) (hapart : f.Apart start.visiting) :
    f.Apart call.visiting := by
  induction h with
  | refl => exact hapart
  | tail _ hmakes ih => exact hmakes.apart ih

theorem datum?_eq_none (h : number.toInt < 0 ∨ f.data.length ≤ number.toInt) : f.datum? number = none := by
  rw [datum?]
  split
  · next hpos =>
    have hpos' : 0 ≤ number.toInt := Int32.le_iff_toInt_le.1 hpos
    exact List.getElem?_eq_none (by omega)
  · rfl

end Function

/-- **References end on every table.** No chain of calls goes on for ever, from any list. Each call has one text, the
one of `Function.referenceAt`, and leaves the list as it found it. The calls that follow from one with an empty list are
in the middle of numbers that are all different and in the table, so of no more than the table has. A number that the
table does not have or that is in the list gets a placeholder. -/
theorem references_end_on_every_table (f : Function) :
    (WellFounded fun inner outer => f.Makes outer inner) ∧
    (∀ visiting number text left, f.RefersAt visiting number text left ↔
      text = f.referenceAt (f.indices visiting) number ∧ left = visiting) ∧
    (∀ visiting d text left, f.RefersIn visiting d text left ↔
      text = f.referenceIn (f.indices visiting) d ∧ left = visiting) ∧
    (∀ start call, start.visiting = [] → Relation.ReflTransGen f.Makes start call →
      f.Apart call.visiting ∧ call.visiting.length ≤ f.data.length) ∧
    (∀ visiting (number : Int32), number.toInt < 0 ∨ f.data.length ≤ number.toInt ∨ number ∈ visiting →
      f.referenceAt (f.indices visiting) number = "__datum_" ++ toString number.toInt) := by
  refine ⟨f.wellFounded_makes, fun _ _ _ _ => Function.refersAt_iff, fun _ _ _ _ => Function.refersIn_iff, ?_, ?_⟩
  · intro start call hstart hreach
    have hnone : f.Apart start.visiting := hstart ▸ ⟨.nil, nofun⟩
    have hapart := Function.apart_of_reach hreach hnone
    exact ⟨hapart, hapart.length_le⟩
  · rintro visiting number (hneg | hpast | hmem)
    · exact Function.referenceAt_of_missing (Function.datum?_eq_none (.inl hneg)) _
    · exact Function.referenceAt_of_missing (Function.datum?_eq_none (.inr hpast)) _
    · exact Function.referenceAt_of_mem hmem

/-! ### A field of itself, and a row in itself -/

/-- A field whose record is the field, a variable, and a row of the variable and the row. -/
def selfMembers : Function :=
  ⟨[.field ⟨"id", 0⟩,
      .scalar ⟨"a", 2, none, false, false, none, none, none, 0⟩,
      .row ⟨unnamedRow, 5, [⟨"a", 1⟩, ⟨"self", 2⟩]⟩],
    ⟨3, none, [], none⟩⟩

theorem references_end_on_every_table_selfMembers :
    selfMembers.RefersAt [] 0 "__datum_0.id" [] ∧ selfMembers.RefersAt [] 2 "a, __datum_2" [] ∧
      selfMembers.RefersIn [] (.field ⟨"id", 0⟩) "__datum_0.id.id" [] ∧
      Relation.ReflTransGen selfMembers.Makes (.number [] 0) (.number [0] 0) ∧ selfMembers.Apart [0] ∧
      selfMembers.referenceAt (selfMembers.indices []) (-1) = "__datum_-1" := by
  obtain ⟨-, hat, hin, hcalls, hplaceholder⟩ := references_end_on_every_table selfMembers
  have hreach : Relation.ReflTransGen selfMembers.Makes (.number [] 0) (.number [0] 0) :=
    .tail (.single (.enter rfl List.not_mem_nil)) .record
  exact ⟨(hat ..).2 ⟨by cbv, rfl⟩, (hat ..).2 ⟨by cbv, rfl⟩, (hin ..).2 ⟨by cbv, rfl⟩, hreach,
    (hcalls _ _ rfl hreach).1, hplaceholder [] (-1) (.inl (by decide))⟩

end Routine
