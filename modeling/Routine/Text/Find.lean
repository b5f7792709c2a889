/-!
# Pieces of text

The operations are on lists of characters. Of several occurrences of a piece the first one counts, and
doubled marks are read from left to right.
-/

namespace Routine
namespace Text

/-- Number of bytes of the text in UTF-8. -/
def byteLength : List Char → Nat
  | [] => 0
  | c :: cs => c.utf8Size + byteLength cs

/-- Number of characters before the first occurrence of the piece. -/
def findPiece (piece : List Char) : List Char → Option Nat
  | [] => if piece.isEmpty then some 0 else none
  | c :: cs => if piece.isPrefixOf (c :: cs) then some 0 else (findPiece piece cs).map (· + 1)

/-- The piece occurs in the text. -/
def hasPiece (piece cs : List Char) : Bool :=
  (findPiece piece cs).isSome

/-- Every mark is written twice. -/
def doubled (mark : Char) (cs : List Char) : List Char :=
  cs.flatMap fun c => if c = mark then [c, c] else [c]

/-- Every pair of marks is read as one, from left to right; a mark that stands alone is kept. -/
def undoubled (mark : Char) : List Char → List Char
  | [] => []
  | [c] => [c]
  | c :: d :: cs => if c = mark ∧ d = mark then mark :: undoubled mark cs else c :: undoubled mark (d :: cs)

/-- The piece occurs in the string. -/
def contains (s piece : String) : Bool :=
  hasPiece piece.toList s.toList

end Text
end Routine
