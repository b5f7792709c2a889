import Routine.Layout.Basic

/-!
# Declarations

Variables, records and cursors are declared; rows and fields are not. A record without a type of its
own is declared as a `record`.
-/

namespace Routine
namespace Layout

variable (y : Layout)

/-- An argument in the declaration of a cursor. -/
def argument (m : Member) : String :=
  match y.function.datum? m.number with
  | some (.scalar v) =>
    match v.type with
    | some t => v.name ++ " " ++ y.type t
    | none => v.name
  | _ => m.name

/-- The argument list of a cursor that has a row of them. -/
def argumentList (v : Variable) : String :=
  match v.cursorArguments.bind y.function.datum? with
  | some (.row r) => " (" ++ commas (r.members.map y.argument) ++ ")"
  | _ => ""

/-- The declaration of a cursor for a query. -/
def cursorDeclaration (v : Variable) (query : Leaf) : String :=
  v.name ++ " " ++ y.scroll v.cursorOptions ++ y.keyword "CURSOR" ++ y.argumentList v ++ " " ++
    y.keyword "FOR" ++ " " ++ y.leaf query ++ ";"

/-- The type of a variable. -/
def variableType : Option TypeRef → String
  | some t => y.type t
  | none => y.keyword "record"

/-- The type of a record. -/
def recordType : Option TypeRef → String
  | some t => if Text.sameName (Text.trim t.captured) "record" then y.keyword "record" else y.type t
  | none => y.keyword "record"

/-- The declaration of a variable that is no cursor. -/
def variableDeclaration (v : Variable) : String :=
  v.name ++ (if v.isConstant then " " ++ y.keyword "CONSTANT" else "") ++ " " ++ y.variableType v.type ++
    (if v.notNull then " " ++ y.keyword "NOT NULL" else "") ++
    (match v.initial with
      | some l => " := " ++ y.leaf l
      | none => "") ++ ";"

/-- The declaration of a datum, if it has one. -/
def declaration : Datum → Option String
  | .scalar v =>
    match v.cursorQuery with
    | some query => some (y.cursorDeclaration v query)
    | none => some (y.variableDeclaration v)
  | .record r => some (r.name ++ " " ++ y.recordType r.type ++ ";")
  | .row _ => none
  | .field _ => none

/-- The declarations of the data in the places, under their keyword. -/
def declarations (depth : Nat) (places : List Nat) : List Line :=
  if places.isEmpty then []
  else
    ⟨depth, y.keyword "DECLARE"⟩ :: places.filterMap fun i =>
      (y.function.data[i]?.bind y.declaration).map fun text => ⟨depth + 1, text⟩

end Layout
end Routine
