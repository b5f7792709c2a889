/-!
# Letter case

Names and keywords compare without regard to the case of ASCII letters only; every other character
is compared as it is. Prefixes and suffixes are compared byte for byte after folding, and since
folding moves no character into or out of ASCII this is the comparison of the folded characters.
-/

namespace Routine
namespace Text

/-- A character with an ASCII capital made small. -/
def lower (c : Char) : Char := c.toLower

/-- A character with an ASCII small letter made capital. -/
def upper (c : Char) : Char := c.toUpper

/-- The string with its ASCII letters made small. -/
def lowercase (s : String) : String :=
  String.ofList (s.toList.map lower)

/-- The string with its ASCII letters made capital. -/
def uppercase (s : String) : String :=
  String.ofList (s.toList.map upper)

/-- Equal up to the case of ASCII letters. -/
def sameLetters (s t : List Char) : Bool :=
  s.map lower == t.map lower

/-- The strings are equal up to the case of ASCII letters. -/
def sameName (s t : String) : Bool :=
  sameLetters s.toList t.toList

/-- The first text starts with the second, up to the case of ASCII letters. -/
def startsWithLetters (s t : List Char) : Bool :=
  (t.map lower).isPrefixOf (s.map lower)

/-- The first text ends with the second, up to the case of ASCII letters. -/
def endsWithLetters (s t : List Char) : Bool :=
  (t.map lower).isSuffixOf (s.map lower)

/-- The string starts with the other, up to the case of ASCII letters. -/
def startsWithName (s t : String) : Bool :=
  startsWithLetters s.toList t.toList

/-- The string ends with the other, up to the case of ASCII letters. -/
def endsWithName (s t : String) : Bool :=
  endsWithLetters s.toList t.toList

/-- The capital form of a letter as keyword recognition sees it. Only characters whose capital form
is made of ASCII letters can spell a keyword, so all others stand for themselves. -/
def keywordLetters (c : Char) : List Char :=
  if c.toNat < 0x80 then [upper c]
  else match c with
    | 'ß' => ['S', 'S']
    | 'ı' => ['I']
    | 'ſ' => ['S']
    | 'ﬀ' => ['F', 'F']
    | 'ﬁ' => ['F', 'I']
    | 'ﬂ' => ['F', 'L']
    | 'ﬃ' => ['F', 'F', 'I']
    | 'ﬄ' => ['F', 'F', 'L']
    | 'ﬅ' => ['S', 'T']
    | 'ﬆ' => ['S', 'T']
    | c => [c]

/-- The spelling under which a word is looked up among the keywords. -/
def keywordForm (s : String) : String :=
  String.ofList (s.toList.flatMap keywordLetters)

end Text
end Routine
