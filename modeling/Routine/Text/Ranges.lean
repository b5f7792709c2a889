/-!
# Tables of code point ranges

A property of characters that is data of a standard is given here as a list of inclusive ranges,
ascending and apart. Membership is a plain search: the tables are consulted only for characters
outside ASCII, which are rare in procedural source, so no faster search is worth its proof.
-/

namespace Routine
namespace Text

/-- An ascending list of inclusive code point ranges. -/
abbrev Ranges := List (Nat × Nat)

/-- A character lies in one of the ranges. -/
def Ranges.holds (table : Ranges) (c : Char) : Bool :=
  table.any fun r => r.1 ≤ c.toNat && c.toNat ≤ r.2

theorem Ranges.holds_iff (table : Ranges) (c : Char) :
    table.holds c = true ↔ ∃ r ∈ table, r.1 ≤ c.toNat ∧ c.toNat ≤ r.2 := by
  simp [Ranges.holds]

end Text
end Routine
