import Routine.Text.Blank
import Routine.Text.Letters

/-!
# Words in unread SQL text

Text that is looked at character by character, without tokens, takes a word to be a run of letters,
digits, `_`, `$` and characters outside ASCII.
-/

namespace Routine
namespace Sql

/-- A character that can be part of a word. -/
def isWordChar (c : Char) : Bool :=
  c.isAlphanum || c = '_' || c = '$' || 0x80 ≤ c.toNat

/-- The text without a leading `SELECT` and the blanks after it; a text that does not start with
that word is unchanged. -/
def dropSelect (text : String) : String :=
  let trimmed := Text.dropBlanks text.toList
  if Text.startsWithLetters trimmed "SELECT".toList then
    match trimmed.drop 6 with
    | [] => ""
    | c :: rest => if isWordChar c then text else String.ofList (Text.dropBlanks (c :: rest))
  else text

end Sql
end Routine
