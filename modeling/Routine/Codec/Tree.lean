import Routine.Codec.Depth
import Routine.Codec.Statement
import Routine.Shape.OfJson
import Routine.Shape.OfText
import Routine.Shape.Write

/-!
# Parse trees in JSON

`ParseTree.toJson` writes a tree, `ParseTree.ofText` reads one from text and `ParseTree.ofJson` from a
JSON value. All three follow one shape. Text can be nested only so deep, and a value is as deep as it
is, so in either case some number of levels describes everything that can be read; a tree is written
with the levels that it has. How the parsed SQL of the leaves looks is up to the codecs; without others
it is that of this library.

A tag that is not known means that the tree was made by a parser of another version. It is told apart
from the other faults by what the message says.
-/

namespace Routine

/-- A routine. -/
def Function.shape (datum : Shape Datum) (stmt : Shape Stmt) : Shape Function :=
  .convert (fun (data, action, ()) => .ok ⟨data, action⟩) (fun f => (f.data, f.action, ()))
    (.record "struct Function"
      (.listed "datums" datum (.required "action" (.tagged "PLpgSQL_stmt_block" (Block.shape stmt)) .nil)))

namespace ParseTree

/-- Parse trees whose leaves and types have the shapes and whose statements go so many levels deep. -/
def format (leaf : Shape Leaf) (type : Shape TypeRef) (levels : Nat) : Shape ParseTree :=
  let datum := Datum.shape leaf type
  taggedList "PLpgSQL_function" (Function.shape datum (Stmt.shape leaf datum levels))

/-- Parse trees whose statements go so many levels deep. -/
def shape (sql : Sql.Codecs) (levels : Nat) : Shape ParseTree :=
  format (Leaf.shape sql) (TypeRef.shape sql) levels

/-- The JSON value of a tree. -/
def toValue (t : ParseTree) (sql : Sql.Codecs := Sql.codecs) : Json :=
  (shape sql t.depth).write t

/-- The tree as JSON text. -/
def toJson (t : ParseTree) (sql : Sql.Codecs := Sql.codecs) : String :=
  (t.toValue sql).compact

end ParseTree

/-! ## Decoding -/

/-- Why a tree could not be decoded. -/
inductive DecodeError where
  /-- A node has a tag that is not known. -/
  | unknownTag (tag : String)
  | invalid (report : Json.Report)
deriving DecidableEq, Repr

namespace DecodeError

/-- What comes before an unknown tag in a message. -/
def unknownLead : List Char := "unknown variant `".toList

/-- The text between the lead and the next backtick, if the characters start so. -/
def tagHere? (cs : List Char) : Option String :=
  if unknownLead.isPrefixOf cs then
    let rest := cs.drop unknownLead.length
    let tag := rest.takeWhile (· ≠ '`')
    if tag.isEmpty || tag.length = rest.length then none else some (String.ofList tag)
  else none

/-- The first unknown tag that a message names. -/
def tag? : List Char → Option String
  | [] => none
  | c :: cs => tagHere? (c :: cs) <|> tag? cs

/-- What a report says about the tree. -/
def ofReport (r : Json.Report) : DecodeError :=
  match tag? r.message.toList with
  | some tag => unknownTag tag
  | none => invalid r

/-- The error in words. -/
def message : DecodeError → String
  | unknownTag tag => "Unrecognized node tag `" ++ tag ++ "` in procedural parse tree"
  | invalid r =>
    "Invalid procedural parse tree at line " ++ toString r.line ++ ", column " ++ toString r.column ++
      ": " ++ r.message

end DecodeError

namespace ParseTree

/-- Everything that text can hold. Nothing nests deeper than text may. -/
def textShape (sql : Sql.Codecs) : Shape ParseTree := shape sql Json.maxRoom

/-- The tree that a text is. -/
def ofText (text : String) (sql : Sql.Codecs := Sql.codecs) : Except DecodeError ParseTree :=
  match (textShape sql).parse text with
  | .ok t => .ok t
  | .error f => .error (.ofReport (f.report text))

/-- The tree that a JSON value is. Of members with one name the last one counts, and members are
visited in the order of their names. -/
def ofJson (v : Json) (sql : Sql.Codecs := Sql.codecs) : Except DecodeError ParseTree :=
  let v := v.canonical
  match (shape sql v.depth).ofJson v with
  | .ok t => .ok t
  | .error c => .error (.ofReport c.report)

end ParseTree
end Routine
