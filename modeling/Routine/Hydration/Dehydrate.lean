import Routine.Sql.Backend
import Routine.TypeName
import Routine.Slot

/-!
# Dehydration: parsed SQL back to text

A hydrated leaf remembers the text it was parsed from. If a fresh parse of that text gives the tree
that the leaf holds, nobody has edited the tree and the text is kept to the letter; otherwise the tree
is rendered. A tree that the backend cannot render falls back to the text, so every leaf has one.
-/

namespace Routine

open Sql (Backend BackendError Tree)

/-- What parsing gave is the tree, up to places. -/
def isUnedited (parsed : Except BackendError Tree) (tree : Tree) : Bool :=
  match parsed with
  | .ok t => t.same tree
  | .error _ => false

/-- A rendering, or else the text that was there before. -/
def renderedOr (rendered : Except BackendError String) (captured : String) : String :=
  match rendered with
  | .ok text => text
  | .error _ => captured

section

variable (b : Backend)

/-- The text of a statement. -/
def statementText (captured : String) (tree : Tree) : String :=
  if isUnedited (b.parseStatement captured) tree then captured
  else renderedOr (b.renderStatement tree) captured

/-- The text of an expression. -/
def expressionText (captured : String) (tree : Tree) : String :=
  if isUnedited (b.parseExpression captured) tree then captured
  else renderedOr (b.renderExpression tree) captured

/-- The text of one side of an assignment. -/
def sideText (captured : String) : Option Tree → String
  | none => captured
  | some tree => expressionText b captured tree

/-- The text of a hydrated leaf. An assignment neither side of which has changed is kept whole. -/
def Content.text (captured : String) : Content → String
  | raw => captured
  | statement tree => statementText b captured tree
  | expression tree => expressionText b captured tree
  | assignment target value targetTree valueTree =>
    let newTarget := sideText b target targetTree
    let newValue := sideText b value valueTree
    if newTarget = target ∧ newValue = value then captured else newTarget ++ " := " ++ newValue

/-- The text of a leaf. -/
def Leaf.text : Leaf → String
  | raw text _ => text
  | hydrated captured _ content => content.text b captured

/-- The type held by the leaf is the one that the text names. -/
def isUneditedType (captured : String) (tree : Tree) : Bool :=
  match TypeName.parsable? captured with
  | some (base, _) => isUnedited (b.parseType base) tree
  | none => false

/-- The text of a type. -/
def TypeRef.text : TypeRef → String
  | raw name => name
  | hydrated captured tree suffix =>
    if isUneditedType b captured tree then captured
    else
      match b.renderType tree with
      | .ok text => text ++ suffix.getD ""
      | .error _ => captured

/-- The leaf with nothing but its text. -/
def Leaf.dehydrate (l : Leaf) : Leaf :=
  .raw (l.text b) l.mode

/-- The type with nothing but its text. -/
def TypeRef.dehydrate (t : TypeRef) : TypeRef :=
  .raw (t.text b)

/-- Dehydration of every leaf. -/
def dehydrator : Mapper where
  leaf _ l := l.dehydrate b
  type _ t := t.dehydrate b

/-- The tree with nothing but text in its leaves. -/
def ParseTree.dehydrate (t : ParseTree) : ParseTree :=
  t.mapSlots (dehydrator b)

end

/-- A raw leaf stays as it is. -/
theorem Leaf.dehydrate_raw (b : Backend) (text : String) (mode : ParseMode) :
    (Leaf.raw text mode).dehydrate b = .raw text mode := rfl

/-- A raw type stays as it is. -/
theorem TypeRef.dehydrate_raw (b : Backend) (name : String) :
    (TypeRef.raw name).dehydrate b = .raw name := rfl

end Routine
