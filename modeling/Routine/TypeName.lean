import Routine.Identifier

/-!
# Type names in declarations

A type is written in one of three ways. A reference to the type of a column or of a row
(`base%TYPE`, `base%ROWTYPE`) is kept as it is. A name without a qualifier loses its quotes. A
qualified name is written part by part, each part quoted when it has to be, with its modifier and
its array suffix unchanged. The qualifier of the built-in types is left out.
-/

namespace Routine
namespace TypeName

/-- The qualifier of built-in types. -/
def catalogQualifier : String := "pg_catalog."

/-- The suffixes that make a type a reference, in the order in which they are tried. -/
def referenceSuffixes : List String := ["%rowtype", "%type"]

/-- The base and the suffix of a reference, both as written. -/
def splitReference (name : String) : Option (String × String) :=
  referenceSuffixes.findSome? fun suffix =>
    if Text.endsWithName name suffix then
      let cut := name.toList.length - suffix.toList.length
      some (String.ofList (name.toList.take cut), String.ofList (name.toList.drop cut))
    else none

/-- The name without the qualifier of built-in types. -/
def dropCatalog (name : String) : String :=
  if Text.startsWithName name catalogQualifier then
    String.ofList (name.toList.drop catalogQualifier.toList.length)
  else name

/-- Number of characters before the first `opening` outside double quotes. -/
def openingAt (opening : Char) (inQuotes : Bool) : List Char → Option Nat
  | [] => none
  | c :: cs =>
    if c = '"' then (openingAt opening (!inQuotes) cs).map (· + 1)
    else if c = opening ∧ inQuotes = false then some 0
    else (openingAt opening inQuotes cs).map (· + 1)

/-- A name cut before the first `opening` outside double quotes, the first piece without the blanks
it ends with. -/
def cutBefore (opening : Char) (name : String) : String × String :=
  match openingAt opening false name.toList with
  | some n => (String.ofList (Text.dropBlanksEnd (name.toList.take n)), String.ofList (name.toList.drop n))
  | none => (name, "")

/-- The type as a declaration shows it. -/
def render (name : String) : String :=
  let name := Text.trim name
  match splitReference name with
  | some (base, suffix) => base ++ suffix
  | none =>
    let name := dropCatalog name
    if Identifier.isQualified name then
      let (name, array) := cutBefore '[' name
      let (name, modifier) := cutBefore '(' name
      let parts := (Identifier.split name).map fun part => Identifier.quote (Identifier.normalize part)
      String.intercalate "." parts ++ modifier ++ array
    else Identifier.stripQuotes name

/-- The base to parse and the suffix to keep aside, for a type that is worth parsing: only a
qualified name is. -/
def parsable? (name : String) : Option (String × Option String) :=
  let name := Text.trim name
  let (base, suffix) := match splitReference name with
    | some (base, suffix) => (base, some suffix)
    | none => (name, none)
  let base := dropCatalog base
  if Identifier.isQualified base then some (base, suffix) else none

end TypeName
end Routine
