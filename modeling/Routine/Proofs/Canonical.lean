import Mathlib.Data.List.Perm.Basic
import Mathlib.Data.String.Basic
import Routine.Json.Value

/-!
# The canonical form of a value

The canonical form of an object holds its members sorted by name. If no name comes twice, they are the members
of the object in another order (`canonicalMembers_perm`). The canonical form of a canonical form is itself
(`canonical_canonical`): its members are sorted, and there is only one way to sort them.
-/

namespace Routine
namespace Json

/-- The names of the members ascend. -/
def Ascending (ms : List (String × Json)) : Prop := ms.Pairwise fun m n => m.1 < n.1

theorem mem_insertMember {name : String} {v : Json} {ms : List (String × Json)} {m : String × Json}
    (h : m ∈ insertMember name v ms) : m = (name, v) ∨ m ∈ ms := by
  induction ms with
  | nil => exact .inl (List.mem_singleton.1 h)
  | cons n ms ih =>
    rw [insertMember] at h
    split at h
    · rcases List.mem_cons.1 h with h | h
      · exact .inl h
      · exact .inr (List.mem_cons_of_mem n h)
    · split at h
      · exact List.mem_cons.1 h
      · rcases List.mem_cons.1 h with h | h
        · exact .inr (h ▸ List.mem_cons_self)
        · rcases ih h with h | h
          · exact .inl h
          · exact .inr (List.mem_cons_of_mem n h)

theorem ascending_insertMember {name : String} {v : Json} {ms : List (String × Json)} (h : Ascending ms) :
    Ascending (insertMember name v ms) := by
  induction ms with
  | nil => exact List.pairwise_singleton _ _
  | cons n ms ih =>
    obtain ⟨hhead, htail⟩ := List.pairwise_cons.1 h
    rw [insertMember]
    split
    · next heq =>
      refine List.pairwise_cons.2 ⟨?_, htail⟩
      intro m hm
      have hlt := hhead m hm
      rwa [← heq] at hlt
    · next hne =>
      split
      · next hlt =>
        refine List.pairwise_cons.2 ⟨?_, h⟩
        intro m hm
        rcases List.mem_cons.1 hm with rfl | hm
        · exact hlt
        · exact lt_trans hlt (hhead m hm)
      · next hlt =>
        refine List.pairwise_cons.2 ⟨?_, ih htail⟩
        intro m hm
        rcases mem_insertMember hm with rfl | hm
        · exact lt_of_le_of_ne (not_lt.1 hlt) (Ne.symm hne)
        · exact hhead m hm

theorem ascending_canonicalMembers {acc ms : List (String × Json)} (h : Ascending acc) :
    Ascending (canonicalMembers acc ms) := by
  induction ms generalizing acc with
  | nil => exact h
  | cons m ms ih => exact ih (ascending_insertMember h)

theorem Ascending.nodup {ms : List (String × Json)} (h : Ascending ms) : (ms.map (·.1)).Nodup :=
  List.pairwise_map.2 (h.imp fun hlt => ne_of_lt hlt)

theorem insertMember_perm {name : String} {v : Json} {ms : List (String × Json)} (h : name ∉ ms.map (·.1)) :
    (insertMember name v ms).Perm ((name, v) :: ms) := by
  induction ms with
  | nil => exact .refl _
  | cons n ms ih =>
    rw [List.map_cons, List.mem_cons, not_or] at h
    rw [insertMember, if_neg h.1]
    split
    · exact .refl _
    · exact ((ih h.2).cons n).trans (.swap ..)

theorem canonicalMembers_perm_append {acc ms : List (String × Json)}
    (h : ((acc ++ ms).map (·.1)).Nodup) :
    (canonicalMembers acc ms).Perm (acc ++ ms.map fun m => (m.1, m.2.canonical)) := by
  induction ms generalizing acc with
  | nil => simp [canonicalMembers]
  | cons m ms ih =>
    obtain ⟨name, v⟩ := m
    have hmiddle : (acc ++ (name, v) :: ms).Perm ((name, v) :: (acc ++ ms)) := List.perm_middle
    have hnodup := (hmiddle.map (·.1)).nodup_iff.1 h
    rw [List.map_cons, List.nodup_cons, List.map_append, List.mem_append, not_or] at hnodup
    have hinsert : (insertMember name v.canonical acc).Perm ((name, v.canonical) :: acc) :=
      insertMember_perm hnodup.1.1
    have hnext : ((insertMember name v.canonical acc ++ ms).map (·.1)).Nodup := by
      refine ((hinsert.append_right ms).map (·.1)).nodup_iff.2 ?_
      rw [List.cons_append, List.map_cons, List.nodup_cons, List.map_append, List.mem_append, not_or]
      exact hnodup
    refine (ih hnext).trans ((hinsert.append_right _).trans ?_)
    exact List.perm_middle.symm

/-- **The members in canonical form are the members**, if no name comes twice. -/
theorem canonicalMembers_perm {ms : List (String × Json)} (h : (ms.map (·.1)).Nodup) :
    (canonicalMembers [] ms).Perm (ms.map fun m => (m.1, m.2.canonical)) := canonicalMembers_perm_append h

theorem mem_canonicalMembers {acc ms : List (String × Json)} {m : String × Json}
    (h : m ∈ canonicalMembers acc ms) : m ∈ acc ∨ ∃ n ∈ ms, m.2 = n.2.canonical := by
  induction ms generalizing acc with
  | nil => exact .inl h
  | cons n ms ih =>
    rcases ih h with h | ⟨n', hn', heq⟩
    · rcases mem_insertMember h with rfl | h
      · exact .inr ⟨n, List.mem_cons_self, rfl⟩
      · exact .inl h
    · exact .inr ⟨n', List.mem_cons_of_mem n hn', heq⟩

theorem canonicalItems_eq_map (vs : List Json) : canonicalItems vs = vs.map canonical := by
  induction vs with
  | nil => rfl
  | cons v vs ih => rw [canonicalItems, List.map_cons, ih]

/-- Members that ascend stay as they are if their values do: there is only one way to sort them. -/
theorem Ascending.canonical_eq {ms : List (String × Json)} (h : Ascending ms)
    (hparts : ∀ m ∈ ms, m.2.canonical = m.2) : (obj ms).canonical = obj ms := by
  have hmap : (ms.map fun m => (m.1, m.2.canonical)) = ms := by
    nth_rewrite 2 [← List.map_id ms]
    refine List.map_congr_left ?_
    intro m hm
    rw [hparts m hm]
    rfl
  have hperm := canonicalMembers_perm h.nodup
  rw [hmap] at hperm
  refine congrArg obj (hperm.eq_of_pairwise ?_ (ascending_canonicalMembers List.Pairwise.nil) h)
  intro m n _ _ hlt hgt
  exact absurd hgt (lt_asymm hlt)

-- A value is canonical when its parts are, so the recursion is that of the form.
mutual

/-- **The canonical form is its own canonical form.** -/
theorem canonical_canonical : (v : Json) → v.canonical.canonical = v.canonical
  | .null => rfl
  | .bool _ => rfl
  | .int _ => rfl
  | .float _ => rfl
  | .str _ => rfl
  | .arr vs => by
    simp only [canonical, canonicalItems_eq_map, List.map_map]
    refine congrArg arr (List.map_congr_left ?_)
    exact canonical_canonical_items vs
  | .obj ms => by
    refine Ascending.canonical_eq (ascending_canonicalMembers List.Pairwise.nil) ?_
    intro m hm
    rcases mem_canonicalMembers hm with hnone | ⟨n, hn, heq⟩
    · cases hnone
    · rw [heq, canonical_canonical_members ms n hn]

theorem canonical_canonical_items : (vs : List Json) → ∀ v ∈ vs, v.canonical.canonical = v.canonical
  | [] => List.forall_mem_nil _
  | v :: vs => List.forall_mem_cons.2 ⟨canonical_canonical v, canonical_canonical_items vs⟩

theorem canonical_canonical_members : (ms : List (String × Json)) →
    ∀ m ∈ ms, m.2.canonical.canonical = m.2.canonical
  | [] => List.forall_mem_nil _
  | (_, v) :: ms => List.forall_mem_cons.2 ⟨canonical_canonical v, canonical_canonical_members ms⟩

end

theorem canonical_arr_eq_iff {vs : List Json} :
    (arr vs).canonical = arr vs ↔ ∀ v ∈ vs, v.canonical = v := by
  rw [canonical, arr.injEq]
  induction vs with
  | nil => simp [canonicalItems]
  | cons v vs ih => rw [canonicalItems, List.cons.injEq, List.forall_mem_cons, ih]

theorem canonical_obj_eq_iff {ms : List (String × Json)} :
    (obj ms).canonical = obj ms ↔ Ascending ms ∧ ∀ m ∈ ms, m.2.canonical = m.2 := by
  refine ⟨?_, fun h => h.1.canonical_eq h.2⟩
  intro h
  rw [canonical, obj.injEq] at h
  refine ⟨h ▸ ascending_canonicalMembers List.Pairwise.nil, ?_⟩
  intro m hm
  rw [← h] at hm
  rcases mem_canonicalMembers hm with hnone | ⟨n, -, heq⟩
  · cases hnone
  · rw [heq, canonical_canonical]

end Json
end Routine
