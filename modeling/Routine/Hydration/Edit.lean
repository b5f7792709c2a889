import Routine.Assignment
import Routine.Sql.Backend
import Routine.Slot

/-!
# Edits of a hydrated tree

Renaming a variable changes its name wherever hydrated SQL mentions it and in the table of data. The
tree of one leaf can be replaced by parsing other SQL; the text of the leaf stays, which is how
dehydration sees that the leaf was edited.
-/

namespace Routine

open Sql (Backend BackendError Tree)

/-! ## Renaming -/

/-- The trees of a leaf. -/
def Content.trees : Content → List Tree
  | raw => []
  | statement tree => [tree]
  | expression tree => [tree]
  | assignment _ _ targetTree valueTree => targetTree.toList ++ valueTree.toList

/-- The content with a name changed in its trees. -/
def Content.rename (old new : String) : Content → Content
  | raw => raw
  | statement tree => statement (tree.rename old new)
  | expression tree => expression (tree.rename old new)
  | assignment target value targetTree valueTree =>
    assignment target value (targetTree.map (·.rename old new)) (valueTree.map (·.rename old new))

namespace Leaf

/-- The trees of a leaf. -/
def trees : Leaf → List Tree
  | raw _ _ => []
  | hydrated _ _ content => content.trees

/-- The leaf with a name changed in its trees. -/
def rename (old new : String) : Leaf → Leaf
  | raw text mode => raw text mode
  | hydrated captured mode content => hydrated captured mode (content.rename old new)

end Leaf

/-- Number of places in the trees of a leaf where the name is mentioned. -/
def Slot.mentions (name : String) : Slot → Nat
  | leaf l => Tree.mentionsAll name l.trees
  | type _ => 0

/-- Number of places in all leaves where the name is mentioned. -/
def Slots.mentions (name : String) : List Placed → Nat
  | [] => 0
  | (_, s) :: ss => s.mentions name + Slots.mentions name ss

/-- A tree in which a name was changed, and how often that was. -/
structure Renamed where
  tree : ParseTree
  /-- Mentions in leaves that were changed. -/
  mentions : Nat
  /-- Data that were changed. -/
  data : Nat

namespace ParseTree

/-- The tree with a name changed in hydrated SQL and in the tables of data. -/
def rename (old new : String) (t : ParseTree) : Renamed where
  tree := (t.mapSlots ⟨fun _ l => l.rename old new, fun _ r => r⟩).map fun f =>
    { f with data := f.data.map fun d => if d.name? = some old then d.rename new else d }
  mentions := Slots.mentions old t.slots
  data := (t.flatMap Function.data).countP fun d => d.name? == some old

end ParseTree

/-! ## Replacing one tree -/

/-- The content with other SQL in the place of its tree, or of the tree of one side. Content that has
no tree cannot be changed. -/
def Content.replace? (b : Backend) (side : Assignment.Side) (sql : String) :
    Content → Option (Except BackendError Content)
  | raw => none
  | statement _ => some ((b.parseStatement sql).map statement)
  | expression _ => some ((b.parseExpression sql).map expression)
  | assignment target value targetTree valueTree =>
    some ((b.parseExpression sql).map fun tree =>
      match side with
      | .target => assignment target value (some tree) valueTree
      | .value => assignment target value targetTree (some tree))

/-- The leaf with other SQL. -/
def Leaf.replace? (b : Backend) (side : Assignment.Side) (sql : String) :
    Leaf → Option (Except BackendError Leaf)
  | raw _ _ => none
  | hydrated captured mode content =>
    (content.replace? b side sql).map fun r => r.map (hydrated captured mode)

namespace ParseTree

/-- The slot at the place with the path. -/
def slot? (t : ParseTree) (path : String) : Option Slot :=
  (t.slots.find? fun s => s.1.render = path).map Prod.snd

/-- The tree with the leaf at a place changed. -/
def setLeafAt (t : ParseTree) (path : String) (new : Leaf) : ParseTree :=
  t.mapSlots ⟨fun p l => if p.render = path then new else l, fun _ r => r⟩

/-- The tree with the type at a place changed. -/
def setTypeAt (t : ParseTree) (path : String) (new : TypeRef) : ParseTree :=
  t.mapSlots ⟨fun _ l => l, fun p r => if p.render = path then new else r⟩

/-- The tree with other SQL in a leaf; none if the place has no tree to replace. -/
def setLeaf (b : Backend) (path : String) (side : Assignment.Side) (sql : String) (t : ParseTree) :
    Except BackendError (Option ParseTree) :=
  match t.slot? path with
  | some (.leaf l) =>
    match l.replace? b side sql with
    | none => .ok none
    | some (.error e) => .error e
    | some (.ok new) => .ok (some (t.setLeafAt path new))
  | _ => .ok none

/-- The tree with another type; none if the place has no hydrated type. -/
def setType (b : Backend) (path sql : String) (t : ParseTree) : Except BackendError (Option ParseTree) :=
  match b.parseType sql with
  | .error e => .error e
  | .ok tree =>
    match t.slot? path with
    | some (.type (.hydrated captured _ suffix)) =>
      .ok (some (t.setTypeAt path (.hydrated captured tree suffix)))
    | _ => .ok none

/-- The tree with a datum declared in another line; none if there is no such datum, or it is declared
in no line. -/
def setDatumLine (function datum : Nat) (line : Int32) (t : ParseTree) : Option ParseTree := do
  let f ← t[function]?
  let d ← f.data[datum]?
  let d ← d.setLine? line
  return t.set function { f with data := f.data.set datum d }

end ParseTree
end Routine
