import Routine.Hydration.Dehydrate
import Routine.Reference
import Routine.Signature
import Routine.Sql.Words

/-!
# Lines of a routine body

A body is laid out as lines, each with its depth. How deep lines are indented and what ends them comes
last, so the lines themselves do not depend on it (`Format.join`). What they do depend on is gathered in
a `Layout`: the routine, what a bare `RETURN` means in it, the backend that renders SQL, and the case of
keywords.
-/

namespace Routine

/-- A line of text at a depth. -/
structure Line where
  depth : Nat
  text : String
deriving DecidableEq, Repr

/-- How lines become text. -/
structure Format where
  /-- One step of indentation. -/
  indent : String := "  "
  /-- What stands between lines. -/
  newline : String := "\n"
  /-- Keywords are in capitals. -/
  capitals : Bool := true
deriving DecidableEq, Repr

namespace Format

/-- The line with its indentation. -/
def line (f : Format) (l : Line) : String :=
  String.join (List.replicate l.depth f.indent) ++ l.text

/-- The lines as one text. -/
def join (f : Format) (ls : List Line) : String :=
  String.intercalate f.newline (ls.map f.line)

end Format

/-- What the lines of a routine depend on. -/
structure Layout where
  backend : Sql.Backend
  function : Function
  /-- What the signature says about the result, if it is known. -/
  kind : Option ReturnKind
  /-- Keywords are in capitals. -/
  capitals : Bool

/-- Words with blanks between them. -/
def spaced (words : List String) : String :=
  String.intercalate " " words

/-- Items with commas between them. -/
def commas (items : List String) : String :=
  String.intercalate ", " items

namespace Layout

variable (y : Layout)

/-- Keywords in the case of the layout. -/
def keyword (words : String) : String :=
  if y.capitals then Text.uppercase words else Text.lowercase words

/-- The text of a leaf, without the blanks around it. -/
def leaf (l : Leaf) : String :=
  Text.trim (l.text y.backend)

/-- The name of a type as it is declared. -/
def type (t : TypeRef) : String :=
  TypeName.render (t.text y.backend)

/-- The line that a label has to itself. -/
def labelLines (depth : Nat) : Option String → List Line
  | none => []
  | some label => [⟨depth, "<<" ++ label ++ ">>"⟩]

/-- A keyword that closes something, and the label of what it closes. -/
def closing (words : String) (label : Option String) : String :=
  match label with
  | none => y.keyword words
  | some label => y.keyword words ++ " " ++ label

/-- The text is an error code rather than the name of a condition. -/
def isErrorCode (name : String) : Bool :=
  name.toList.length = 5 && name.toList.all Char.isAlphanum && name.toList.any Char.isDigit

/-- A condition that is raised or handled. -/
def condition (name : String) : String :=
  if isErrorCode name then y.keyword "SQLSTATE" ++ " '" ++ name ++ "'"
  else if Text.sameName name "others" then y.keyword "OTHERS"
  else name

/-- Whether a cursor scrolls, if its options say so. -/
def scroll (options : Int32) : String :=
  if options &&& 4 ≠ 0 then y.keyword "NO SCROLL" ++ " "
  else if options &&& 2 ≠ 0 then y.keyword "SCROLL" ++ " "
  else ""

/-- The parameters of a query that is put together when it runs. -/
def parameters (ls : List Leaf) : String :=
  if ls.isEmpty then "" else " " ++ y.keyword "USING" ++ " " ++ commas (ls.map y.leaf)

/-- The arguments of a cursor, which are stored as a selection. -/
def cursorArguments (l : Leaf) : String :=
  "(" ++ Sql.dropSelect (y.leaf l) ++ ")"

/-- The clause that says where rows go. -/
def into (target : Datum) (strict : Bool) : String :=
  spaced <|
    [y.keyword "INTO"] ++ (if strict then [y.keyword "STRICT"] else []) ++ [y.function.referenceFor target]

end Layout
end Routine
