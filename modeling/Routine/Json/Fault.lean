import Routine.Json.Value
import Routine.Text.Quoted

/-!
# Faults of reading

Reading a value fails for one of two reasons. The text may not be JSON (`Malformed`); then the place
of the fault is known when it is found. Or the value may not be of the wanted shape (`Complaint`); a
complaint is made without a place, and is given the place that reading has reached at the end of the
value it is about. Until then a fault keeps the place reading has come to (`Fault.loose`).
-/

namespace Routine
namespace Json

/-- A place in a text that is being read: what is left of it, and the bytes before. -/
structure Cursor where
  rest : List Char
  index : Nat
deriving Repr

/-- Why a text is not JSON. -/
inductive Malformed where
  | endInList
  | endInObject
  | endInString
  | endInValue
  | noColon
  | noListSeparator
  | noObjectSeparator
  | noIdent
  | noValue
  | badEscape
  | badNumber
  | outOfRange
  | controlCharacter
  | keyNotString
  | loneSurrogate
  | halfSurrogate
  | trailingComma
  | trailingCharacters
  | tooDeep
deriving DecidableEq, Repr

/-- The fault in words. -/
def Malformed.message : Malformed → String
  | endInList => "EOF while parsing a list"
  | endInObject => "EOF while parsing an object"
  | endInString => "EOF while parsing a string"
  | endInValue => "EOF while parsing a value"
  | noColon => "expected `:`"
  | noListSeparator => "expected `,` or `]`"
  | noObjectSeparator => "expected `,` or `\x7d`"
  | noIdent => "expected ident"
  | noValue => "expected value"
  | badEscape => "invalid escape"
  | badNumber => "invalid number"
  | outOfRange => "number out of range"
  | controlCharacter => "control character (\\u0000-\\u001F) found while parsing a string"
  | keyNotString => "key must be a string"
  | loneSurrogate => "lone leading surrogate in hex escape"
  | halfSurrogate => "unexpected end of hex escape"
  | trailingComma => "trailing comma"
  | trailingCharacters => "trailing characters"
  | tooDeep => "recursion limit exceeded"

/-- What was found in the place of the wanted value. -/
inductive Found where
  | null
  | bool (b : Bool)
  | int (n : Int)
  | float (bits : UInt64)
  | str (s : String)
  | sequence
  | map
  | bareTag
deriving DecidableEq, Repr

/-- Numbers in complaints: no exponent below ten to the sixteenth. -/
def complaintStyle : Decimal.Style where
  least := -4
  greatest := 15
  plusSign := true
  exponentWidth := 2

/-- What was found, in words. -/
def Found.describe : Found → String
  | null => "null"
  | bool b => "boolean `" ++ (if b then "true" else "false") ++ "`"
  | int n => "integer `" ++ toString n ++ "`"
  | float bits => "floating point `" ++ complaintStyle.text bits ++ "`"
  | str s => "string " ++ Text.quoted s
  | sequence => "sequence"
  | map => "map"
  | bareTag => "unit variant"

/-- What a value is, for a complaint about it. -/
def found : Json → Found
  | .null => .null
  | .bool b => .bool b
  | .int n => .int n
  | .float bits => .float bits
  | .str s => .str s
  | .arr _ => .sequence
  | .obj _ => .map

/-- Why a value is not of the wanted shape. -/
inductive Complaint where
  /-- A value of another kind. -/
  | wrongType (found : Found) (expected : String)
  /-- A value of the kind, but none of the wanted ones. -/
  | wrongValue (found : Found) (expected : String)
  /-- A wrong number of elements. -/
  | wrongLength (count : Nat) (expected : String)
  /-- A member that has to be there and is not. -/
  | missingField (name : String)
  /-- A member that is there twice. -/
  | duplicateField (name : String)
  /-- A tag that is none of the known ones. -/
  | unknownVariant (tag : String) (known : List String)
  /-- A value that fits none of several alternatives. -/
  | noAlternative (name : String)
  /-- A value that a conversion refuses, in the words of the conversion. -/
  | refused (message : String)
deriving DecidableEq, Repr

/-- Names between backticks, as an enumeration of alternatives. -/
def oneOf (names : List String) : String :=
  match names with
  | [] => "there are no variants"
  | [a] => "expected `" ++ a ++ "`"
  | [a, b] => "expected `" ++ a ++ "` or `" ++ b ++ "`"
  | names => "expected one of " ++ String.intercalate ", " (names.map fun n => "`" ++ n ++ "`")

/-- The complaint in words. -/
def Complaint.message : Complaint → String
  | wrongType found expected => "invalid type: " ++ found.describe ++ ", expected " ++ expected
  | wrongValue found expected => "invalid value: " ++ found.describe ++ ", expected " ++ expected
  | wrongLength count expected => "invalid length " ++ toString count ++ ", expected " ++ expected
  | missingField name => "missing field `" ++ name ++ "`"
  | duplicateField name => "duplicate field `" ++ name ++ "`"
  | unknownVariant tag known => "unknown variant `" ++ tag ++ "`, " ++ oneOf known
  | noAlternative name => "data did not match any variant of untagged enum " ++ name
  | refused message => message

/-- A fault while reading a text. -/
inductive Fault where
  /-- The text is not JSON; the index is where the message points. -/
  | malformed (cause : Malformed) (index : Nat)
  /-- A complaint that has its place. -/
  | pinned (complaint : Complaint) (index : Nat)
  /-- A complaint that has no place yet, and how far reading has come. -/
  | loose (complaint : Complaint) (here : Cursor)
deriving Repr

/-- The result of reading from a cursor: a value and the cursor after it. -/
abbrev Reading (α : Type) := Except Fault (α × Cursor)

/-! ## Reports -/

/-- A fault as it is reported, with its line (from one) and its column (in bytes); both are zero
for a complaint about a value that was not read from a text. -/
structure Report where
  line : Nat
  column : Nat
  message : String
deriving DecidableEq, Repr

/-- The line of a byte index, and the bytes between the start of that line and the index. -/
def position (index : Nat) (text : List Char) : Nat × Nat :=
  let step (s : Nat × Nat × Nat) (c : Char) : Nat × Nat × Nat :=
    let (offset, line, start) := s
    if c = '\n' ∧ offset < index then (offset + 1, line + 1, offset + 1)
    else (offset + c.utf8Size, line, start)
  let (_, line, start) := text.foldl step (0, 1, 0)
  (line, index - start)

/-- The message of a fault, and the byte index it points to. -/
def Fault.at : Fault → String × Option Nat
  | malformed cause index => (cause.message, some index)
  | pinned complaint index => (complaint.message, some index)
  | loose complaint _ => (complaint.message, none)

/-- The report of a fault in a text. -/
def Fault.report (text : String) (f : Fault) : Report :=
  match f.at with
  | (message, some index) =>
    let (line, column) := position index text.toList
    ⟨line, column, message ++ " at line " ++ toString line ++ " column " ++ toString column⟩
  | (message, none) => ⟨0, 0, message⟩

/-- The report of a complaint about a value. -/
def Complaint.report (c : Complaint) : Report :=
  ⟨0, 0, c.message⟩

end Json
end Routine
