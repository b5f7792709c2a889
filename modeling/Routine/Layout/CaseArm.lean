import Routine.Datum
import Routine.Text.Blank
import Routine.Text.Numeric

/-!
# Arms of a `CASE` with an operand

The operand of a `CASE` is kept in a hidden variable, and an arm for the values `v` is stored as the
condition that the variable is `IN (v)`. What the source says is `v` alone. `arm?` finds it: between the
first parenthesis after `IN` and the last of the text.
-/

namespace Routine
namespace CaseArm

/-- The characters after the piece, if they start with it. -/
def dropPiece? (piece cs : List Char) : Option (List Char) :=
  if piece.isPrefixOf cs then some (cs.drop piece.length) else none

/-- The characters after a double quote that they may start with. -/
def dropQuote : List Char → List Char
  | '"' :: cs => cs
  | cs => cs

/-- The characters after the hidden variable, if they start with it. -/
def dropVariable? (cs : List Char) : Option (List Char) := do
  let cs ← dropPiece? caseVariableLead.toList (dropQuote cs)
  let digits := cs.takeWhile Text.isDecimalDigit
  guard !digits.isEmpty
  let cs ← dropPiece? ['_', '_'] (cs.drop digits.length)
  return dropQuote cs

/-- The characters before the parenthesis that closes them, if one ends the text. -/
def closed? (cs : List Char) : Option (List Char) :=
  let cs := Text.dropBlanksEnd cs
  if cs.getLast? = some ')' then some cs.dropLast else none

/-- The values of an arm, if the text is the condition of one. -/
def values? (text : String) : Option String := do
  let cs ← dropVariable? (Text.dropBlanks text.toList)
  guard ((cs.head?.map Text.isBlank).getD false)
  let cs ← dropPiece? ['I', 'N'] (Text.dropBlanks cs)
  let cs ← dropPiece? ['('] (Text.dropBlanks cs)
  let inside ← closed? cs
  return String.ofList (Text.strip inside)

end CaseArm
end Routine
