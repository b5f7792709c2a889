import Routine.Shape.Basic

/-!
# Encoding by shape

Members are written in the order of the shape, without those that are hidden. A value of a closed
family is written under the first tag that stands for it.
-/

namespace Routine

mutual

/-- The JSON value of a value. -/
def Shape.write : {α : Type} → Shape α → α → Json
  | _, .int32, n => .int n.toInt
  | _, .int64, n => .int n.toInt
  | _, .natural, n => .int n
  | _, .bool, b => .bool b
  | _, .string, s => .str s
  | _, .character, c => .str c.toString
  | _, .option item, value =>
    match value with
    | none => .null
    | some a => item.write a
  | _, .list item, values => .arr (values.map item.write)
  | _, .record _ fields, value => .obj (fields.writeMembers value)
  | _, .tagged tag item, value => .obj [(tag, item.write value)]
  | _, .choice variants, value => variants.write value
  | _, .convert _ back item, value => item.write (back value)
  | _, .either _ _ write, value => write value
  | _, .codec c, value => c.write value
  | _, .exhausted, _ => .null

/-- The members of a record that are written. -/
def Fields.writeMembers : {α σ : Type} → Fields α σ → α → List (String × Json)
  | _, _, .nil, _ => []
  | _, _, .cons name item _ _ isHidden rest, (a, b) =>
    if isHidden a then rest.writeMembers b else (name, item.write a) :: rest.writeMembers b

/-- The members of a record in order, none left out. -/
def Fields.writeItems : {α σ : Type} → Fields α σ → α → List Json
  | _, _, .nil, _ => []
  | _, _, .cons _ item _ _ _ rest, (a, b) => item.write a :: rest.writeItems b

/-- A value of a family under its tag. -/
def Variants.write : {α : Type} → Variants α → α → Json
  | _, .nil, _ => .null
  | _, .bare tag _ isThis rest, value => if isThis value then .str tag else rest.write value
  | _, .holding tag item _ project rest, value =>
    match project value with
    | some b => .obj [(tag, item.write b)]
    | none => rest.write value
  | _, .named tag _ fields _ project rest, value =>
    match project value with
    | some b => .obj [(tag, .obj (fields.writeMembers b))]
    | none => rest.write value
  | _, .positional tag _ fields _ project rest, value =>
    match project value with
    | some b => .obj [(tag, .arr (fields.writeItems b))]
    | none => rest.write value

end

end Routine
