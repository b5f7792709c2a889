import Routine.Decimal.Shortest

/-!
# JSON values

A number without fraction and exponent that fits 64 bits is an integer; every other number is a
64-bit floating point number, kept as its bits so that values can be compared. An object keeps its
members in the order in which they were written, repeated names included; `canonical` is the view in
which the members are sorted by name and the last of several members with one name counts.
-/

namespace Routine

/-- A JSON value. -/
inductive Json where
  | null
  | bool (b : Bool)
  | int (n : Int)
  | float (bits : UInt64)
  | str (s : String)
  | arr (items : List Json)
  | obj (members : List (String × Json))
deriving Repr, Inhabited

namespace Json

/-! ## Members -/

/-- The members sorted by name, with this one added in the place of any other of its name. -/
def insertMember (name : String) (value : Json) : List (String × Json) → List (String × Json)
  | [] => [(name, value)]
  | (n, v) :: rest =>
    if name = n then (name, value) :: rest
    else if name < n then (name, value) :: (n, v) :: rest
    else (n, v) :: insertMember name value rest

mutual

/-- The value with the members of every object sorted by name, each name once. -/
def canonical : Json → Json
  | arr items => arr (canonicalItems items)
  | obj members => obj (canonicalMembers [] members)
  | v => v

/-- The items, each in canonical form. -/
def canonicalItems : List Json → List Json
  | [] => []
  | v :: vs => v.canonical :: canonicalItems vs

/-- The members added, in canonical form, to those that are sorted already. -/
def canonicalMembers (sorted : List (String × Json)) : List (String × Json) → List (String × Json)
  | [] => sorted
  | (name, v) :: rest => canonicalMembers (insertMember name v.canonical sorted) rest

end

/-- The member with the name, if the value is an object that has one. -/
def get? (v : Json) (name : String) : Option Json :=
  match v with
  | obj members => (members.find? (·.1 = name)).map (·.2)
  | _ => none

mutual

/-- Number of arrays and objects around the innermost value. -/
def depth : Json → Nat
  | arr items => depthItems items + 1
  | obj members => depthMembers members + 1
  | _ => 0

/-- The greatest depth among the items. -/
def depthItems : List Json → Nat
  | [] => 0
  | v :: vs => max v.depth (depthItems vs)

/-- The greatest depth among the members. -/
def depthMembers : List (String × Json) → Nat
  | [] => 0
  | (_, v) :: vs => max v.depth (depthMembers vs)

end

/-! ## Text -/

/-- Numbers in JSON text. -/
def floatStyle : Decimal.Style where
  least := -5
  greatest := 15
  plusSign := false
  exponentWidth := 1

/-- A character as it stands in a JSON string. -/
def escapedChar (c : Char) : List Char :=
  match c with
  | '"' => ['\\', '"']
  | '\\' => ['\\', '\\']
  | '\x08' => ['\\', 'b']
  | '\t' => ['\\', 't']
  | '\n' => ['\\', 'n']
  | '\x0c' => ['\\', 'f']
  | '\r' => ['\\', 'r']
  | c =>
    if c.toNat < 0x20 then
      ['\\', 'u', '0', '0', Nat.digitChar (c.toNat / 16), Nat.digitChar (c.toNat % 16)]
    else [c]

/-- A string in JSON notation. -/
def stringText (s : String) : List Char :=
  '"' :: s.toList.flatMap escapedChar ++ ['"']

mutual

/-- The text of a value without blanks. -/
def compactChars : Json → List Char
  | null => "null".toList
  | bool true => "true".toList
  | bool false => "false".toList
  | int n => (toString n).toList
  | float bits => (floatStyle.text bits).toList
  | str s => stringText s
  | arr items => '[' :: compactItems items ++ [']']
  | obj members => '{' :: compactMembers members ++ ['}']

/-- The texts of items with commas between them. -/
def compactItems : List Json → List Char
  | [] => []
  | [v] => v.compactChars
  | v :: vs => v.compactChars ++ ',' :: compactItems vs

/-- The texts of members with commas between them. -/
def compactMembers : List (String × Json) → List Char
  | [] => []
  | [(name, v)] => stringText name ++ ':' :: v.compactChars
  | (name, v) :: vs => stringText name ++ ':' :: v.compactChars ++ ',' :: compactMembers vs

end

/-- The text of a value without blanks. -/
def compact (v : Json) : String :=
  String.ofList v.compactChars

end Json
end Routine
