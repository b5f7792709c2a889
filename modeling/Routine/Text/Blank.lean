import Routine.Text.Ranges

/-!
# Blank characters and trimming

`isBlank` is the White_Space property of Unicode. Trimming works on lists of characters, where its
laws are plain list facts, and is lifted to strings at the end.
-/

namespace Routine
namespace Text

/-- The characters with the White_Space property that lie outside ASCII. -/
def blankRanges : Ranges :=
  [(0x85, 0x85), (0xA0, 0xA0), (0x1680, 0x1680), (0x2000, 0x200A), (0x2028, 0x2029),
   (0x202F, 0x202F), (0x205F, 0x205F), (0x3000, 0x3000)]

/-- A character with the White_Space property. -/
def isBlank (c : Char) : Bool :=
  if c.toNat < 0x80 then c = ' ' || (9 ≤ c.toNat && c.toNat ≤ 13) else blankRanges.holds c

/-! ## Lists of characters -/

/-- The text without the blanks it starts with. -/
def dropBlanks (cs : List Char) : List Char :=
  cs.dropWhile isBlank

/-- The text without the blanks it ends with. -/
def dropBlanksEnd (cs : List Char) : List Char :=
  (cs.reverse.dropWhile isBlank).reverse

/-- The text without the blanks around it. -/
def strip (cs : List Char) : List Char :=
  dropBlanksEnd (dropBlanks cs)

/-! ## Strings -/

/-- The string without the blanks it ends with. -/
def trimEnd (s : String) : String :=
  String.ofList (dropBlanksEnd s.toList)

/-- The string without the blanks around it. -/
def trim (s : String) : String :=
  String.ofList (strip s.toList)

end Text
end Routine
