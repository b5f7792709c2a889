import Mathlib.Order.Nat
import Routine.Proofs.Bytes
import Routine.Proofs.DollarTags

/-!
# The first free tag

The search for a tag goes on for as long as the tag at hand stands in the body (`Signature.Searches`). Nothing in that
gets smaller. It ends because the tags differ from each other, and each that is taken needs a place of its own in the
body, so one among the first is free. From there the way back is by steps: before the first free tag every round finds
a tag taken, and at it the search stops (`Signature.searches_iff`).
-/

namespace Routine
namespace Signature

/-- The tags in the order in which they are tried. -/
def candidate : Nat → String
  | 0 => "$$"
  | n + 1 => numberedTag n

/-- The tag stands somewhere in the body. -/
def Occurs (tag body : String) : Prop := tag.toList <:+: body.toList

/-- The search that starts with the tag of a number: what it ends with, and after how many rounds. -/
inductive Searches (body : String) : Nat → String → Nat → Prop
  | free {n : Nat} (hfree : ¬ Occurs (numberedTag n) body) : Searches body n (numberedTag n) 0
  | taken {n rounds : Nat} {tag : String} (htaken : Occurs (numberedTag n) body)
    (hrest : Searches body (n + 1) tag rounds) : Searches body n tag (rounds + 1)

/-- The choice of a tag, and the rounds of its search. -/
inductive Picks (body : String) : String → Nat → Prop
  | plain (hfree : ¬ Occurs "$$" body) : Picks body "$$" 0
  | numbered {rounds : Nat} {tag : String} (htaken : Occurs "$$" body) (hsearch : Searches body 0 tag rounds) :
    Picks body tag rounds

variable {body tag : String} {n m rounds : Nat}

theorem contains_eq_true_iff : Text.contains body tag = true ↔ Occurs tag body :=
  Text.hasPiece_iff

theorem contains_eq_false_iff : Text.contains body tag = false ↔ ¬ Occurs tag body := by
  rw [← contains_eq_true_iff, Bool.not_eq_true]

/-- The first numbered tag that is free. -/
theorem exists_first_free (body : String) :
    ∃ m ≤ body.toList.length, ¬ Occurs (numberedTag m) body ∧ ∀ k < m, Occurs (numberedTag k) body := by
  have hfree := exists_free_tag body
  have hsome : ∃ n, Text.contains body (numberedTag n) = false := by
    obtain ⟨n, -, hn⟩ := hfree
    exact ⟨n, hn⟩
  obtain ⟨n, hle, hn⟩ := hfree
  refine ⟨Nat.find hsome, (Nat.find_min' hsome hn).trans hle, contains_eq_false_iff.1 (Nat.find_spec hsome), ?_⟩
  intro k hk
  exact contains_eq_true_iff.1 (Bool.not_eq_false _ ▸ Nat.find_min hsome hk)

/-- Fuel that lasts to the first free tag finds it. -/
theorem freeTag_eq {fuel : Nat} (hfree : ¬ Occurs (numberedTag m) body)
    (htaken : ∀ k, n ≤ k → k < m → Occurs (numberedTag k) body) (hle : n ≤ m) (hlt : m < n + fuel) :
    freeTag body fuel n = numberedTag m := by
  induction fuel generalizing n with
  | zero => omega
  | succ fuel ih =>
    rw [freeTag]
    rcases Nat.eq_or_lt_of_le hle with rfl | hlater
    · rw [contains_eq_false_iff.2 hfree, if_neg Bool.false_ne_true]
    · rw [contains_eq_true_iff.2 (htaken n n.le_refl hlater), if_pos rfl]
      exact ih (fun k hk => htaken k (by omega)) hlater (by omega)

/-- The search stops at the first free tag, one round for each before it. -/
theorem searches_iff (hfree : ¬ Occurs (numberedTag m) body)
    (htaken : ∀ k, n ≤ k → k < m → Occurs (numberedTag k) body) (hle : n ≤ m) :
    Searches body n tag rounds ↔ tag = numberedTag m ∧ n + rounds = m := by
  constructor
  · intro hsearch
    -- On the rounds of the search: it never gets past the first free tag.
    induction hsearch with
    | @free n hn =>
      have hsame : n = m := by
        refine Nat.le_antisymm hle (Nat.le_of_not_lt ?_)
        intro hlt
        exact hn (htaken n n.le_refl hlt)
      exact ⟨by rw [hsame], hsame⟩
    | @taken n rounds tag hn _ ih =>
      have hlt : n < m := by
        refine Nat.lt_of_le_of_ne hle ?_
        rintro rfl
        exact hfree hn
      obtain ⟨htag, hrounds⟩ := ih (fun k hk => htaken k (by omega)) hlt
      exact ⟨htag, by omega⟩
  · rintro ⟨rfl, rfl⟩
    induction rounds generalizing n with
    | zero => exact .free hfree
    | succ rounds ih =>
      refine .taken (htaken n n.le_refl (by omega)) ?_
      have hsum : n + (rounds + 1) = n + 1 + rounds := by omega
      rw [hsum] at hfree htaken ⊢
      exact ih hfree (fun k hk => htaken k (by omega)) (by omega)

/-- Two dollar signs are taken at once if they are free. -/
theorem picks_plain_iff (hplain : ¬ Occurs "$$" body) : Picks body tag rounds ↔ tag = "$$" ∧ rounds = 0 := by
  constructor
  · rintro (hfree | ⟨htaken, -⟩)
    · exact ⟨rfl, rfl⟩
    · exact absurd htaken hplain
  · rintro ⟨rfl, rfl⟩
    exact .plain hplain

theorem picks_numbered_iff (hplain : Occurs "$$" body) (hfree : ¬ Occurs (numberedTag m) body)
    (htaken : ∀ k < m, Occurs (numberedTag k) body) :
    Picks body tag rounds ↔ tag = numberedTag m ∧ rounds = m := by
  have hsearch : Searches body 0 tag rounds ↔ tag = numberedTag m ∧ 0 + rounds = m :=
    searches_iff hfree (fun k _ => htaken k) (Nat.zero_le m)
  rw [Nat.zero_add] at hsearch
  rw [← hsearch]
  constructor
  · rintro (hnone | ⟨-, hloop⟩)
    · exact absurd hplain hnone
    · exact hloop
  · exact .numbered hplain

end Signature

open Signature

/-- **The tag of a body is the first that is free**: none of the tags before it is, in the order `$$`, `$body$`,
`$body1$`, `$body2$` and so on. The search for it ends, with this tag only, after at most as many rounds as the body has
bytes. A round is a tag that is found in the body; the look that finds the last one free comes on top. -/
theorem first_free_tag_is_found (body : String) :
    (∃ n, tagFor body = candidate n ∧ ¬ Occurs (candidate n) body ∧ ∀ m < n, Occurs (candidate m) body) ∧
    ∃ rounds ≤ body.utf8ByteSize, ∀ tag r, Picks body tag r ↔ tag = tagFor body ∧ r = rounds := by
  by_cases hplain : Occurs "$$" body
  · obtain ⟨m, hle, hfree, htaken⟩ := exists_first_free body
    have htag : tagFor body = numberedTag m := by
      rw [tagFor, contains_eq_true_iff.2 hplain, if_pos rfl]
      exact freeTag_eq hfree (fun k _ => htaken k) (Nat.zero_le m) (by omega)
    have hsize : m ≤ body.utf8ByteSize := by
      rw [← Text.byteLength_toList]
      exact hle.trans (Text.length_le_byteLength _)
    refine ⟨⟨m + 1, htag, hfree, fun k hk => ?_⟩, m, hsize, fun tag r => ?_⟩
    · cases k with
      | zero => exact hplain
      | succ k => exact htaken k (by omega)
    · rw [htag]
      exact picks_numbered_iff hplain hfree htaken
  · have htag : tagFor body = "$$" := by
      rw [tagFor, contains_eq_false_iff.2 hplain, if_neg Bool.false_ne_true]
    refine ⟨⟨0, htag, hplain, fun m hm => absurd hm m.not_lt_zero⟩, 0, Nat.zero_le _, fun tag r => ?_⟩
    rw [htag]
    exact picks_plain_iff hplain

end Routine
