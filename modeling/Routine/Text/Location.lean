import Routine.Text.Find

/-!
# Lines and columns

A location counts lines and columns from one, in characters; a newline moves to column one of the
next line. `offsetAt` goes the other way, from a location to the number of bytes before it. Tokens stand
between two locations, and a text that is cut at a token is cut at their offsets.
-/

namespace Routine
namespace Text

/-- A place in a text. -/
structure Location where
  line : Nat
  column : Nat
deriving DecidableEq, Repr, Inhabited

namespace Location

/-- The place before the first character. -/
def start : Location := ⟨1, 1⟩

/-- The place after a character that stands here. -/
def advance (l : Location) (c : Char) : Location :=
  if c = '\n' then ⟨l.line + 1, 1⟩ else ⟨l.line, l.column + 1⟩

/-- The place after a text that stands here. -/
def after (l : Location) (cs : List Char) : Location :=
  cs.foldl advance l

/-- Bytes before the target in a text that stands at `here`; all of them when the text has no such
place. -/
def offsetFrom (target here : Location) : List Char → Nat
  | [] => 0
  | c :: cs => if here = target then 0 else c.utf8Size + offsetFrom target (here.advance c) cs

/-- Bytes before a place of the text, or the length of the text when it has no such place. -/
def offsetAt (target : Location) (text : String) : Nat :=
  offsetFrom target start text.toList

end Location
end Text
end Routine
