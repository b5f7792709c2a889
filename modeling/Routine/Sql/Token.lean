import Routine.Text.Letters

/-!
# Tokens of the SQL dialect

A token keeps what the scanners and the grammar ask about it and nothing else. Operators and
punctuation are one constructor that holds the spelling under which messages show them, so `!=` and
`<>` are the same token. Blanks and comments are tokens too: the scanners need every character of
a text to belong to some token.
-/

namespace Routine
namespace Sql

/-- The notations for a quoted string, apart from dollar quoting. -/
inductive StringKind where
  /-- `'text'` -/
  | plain
  /-- `N'text'` -/
  | national
  /-- `E'text'`, with backslash escapes -/
  | escaped
  /-- `U&'text'`, with code point escapes -/
  | unicode
  /-- `B'text'` -/
  | bits
  /-- `B"text"` -/
  | wideBits
  /-- `X'text'`, and `0x` with its digits -/
  | hex
deriving DecidableEq, Repr

/-- A token of the dialect. -/
inductive Token where
  /-- A name or keyword; between double quotes it is never a keyword. -/
  | word (value : String) (inQuotes : Bool)
  /-- A number, with the mark `L` or without it. -/
  | number (digits : String) (long : Bool)
  /-- A quoted string with its quotes and escapes undone. -/
  | string (kind : StringKind) (value : String)
  /-- A dollar-quoted string, with the tag between its dollar signs if it has one. -/
  | dollar (tag : Option String) (value : String)
  /-- A positional or named parameter, dollar sign included. -/
  | placeholder (text : String)
  /-- Punctuation or a known operator. -/
  | sign (text : String)
  /-- A run of operator characters that spells no known operator. -/
  | custom (text : String)
  /-- A character with no meaning of its own. -/
  | char (c : Char)
  /-- A blank or a comment. -/
  | gap
deriving DecidableEq, Repr

namespace Token

/-- A blank or a comment. -/
def isGap : Token → Bool
  | gap => true
  | _ => false

/-- The token is the given sign. -/
def isSign (text : String) : Token → Bool
  | sign t => t == text
  | _ => false

/-- The token is a word outside quotes that reads as the given keyword. -/
def isKeyword (keyword : String) : Token → Bool
  | word value false => Text.keywordForm value == keyword
  | _ => false

/-- The token is a word, quoted or not, with the given letters. -/
def isWord (name : String) : Token → Bool
  | word value _ => Text.sameName value name
  | _ => false

/-- The token as messages show it. -/
def display : Token → String
  | word value true => "\"" ++ value ++ "\""
  | word value false => value
  | number digits true => digits ++ "L"
  | number digits false => digits
  | string .plain value => "'" ++ value ++ "'"
  | string .national value => "N'" ++ value ++ "'"
  | string .escaped value => "E'" ++ value ++ "'"
  | string .unicode value => "U&'" ++ value ++ "'"
  | string .bits value => "B'" ++ value ++ "'"
  | string .wideBits value => "B\"" ++ value ++ "\""
  | string .hex value => "X'" ++ value ++ "'"
  | dollar none value => "$$" ++ value ++ "$$"
  | dollar (some tag) value => "$" ++ tag ++ "$" ++ value ++ "$" ++ tag ++ "$"
  | placeholder text => text
  | sign text => text
  | custom text => text
  | char c => c.toString
  | gap => " "

end Token
end Sql
end Routine
