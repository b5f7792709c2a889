import Routine.Json.Skip

/-!
# Reading JSON values of any shape

Nesting is limited: `room` counts the arrays and objects that may still be opened, and opening the
last of them is refused. The loops over elements and members are written for any state, so that
reading into a wanted shape can use them too; they go on only while the text gets shorter.
-/

namespace Routine
namespace Json

/-- How many arrays and objects may be nested in a text, and one more. -/
def maxRoom : Nat := 128

/-- Reads what an opening bracket or brace starts, with one level of room less. -/
def entering {α : Type} (room : Nat) (c : Cursor) (inside : Nat → Cursor → Reading α) : Reading α :=
  match room with
  | 0 | 1 => .error (c.peekFault .tooDeep)
  | room + 1 => inside room c.eat

/-- Reads the elements of a list up to its closing bracket, which is not consumed. -/
def readItems {α : Type} (item : Cursor → Reading α) (first : Bool) (c : Cursor) : Reading (List α) :=
  match c.nextItem first with
  | .error f => .error f
  | .ok (false, c) => .ok ([], c)
  | .ok (true, before) =>
    match item before with
    | .error f => .error f
    | .ok (x, after) =>
      if _h : after.rest.length < c.rest.length then
        match readItems item false after with
        | .error f => .error f
        | .ok (xs, after) => .ok (x :: xs, after)
      else .error (after.fault .noValue)
termination_by c.rest.length

/-- Reads the members of an object up to its closing brace, which is not consumed. Each member is
handed over with its name read and the colon still ahead. -/
def readMembers {σ : Type} (member : String → σ → Cursor → Reading σ) (first : Bool) (state : σ)
    (c : Cursor) : Reading σ :=
  match c.nextMember first with
  | .error f => .error f
  | .ok (false, c) => .ok (state, c)
  | .ok (true, c') =>
    match c'.string with
    | .error f => .error f
    | .ok (name, c') =>
      match member name state c' with
      | .error f => .error f
      | .ok (state, after) =>
        if _h : after.rest.length < c.rest.length then readMembers member false state after
        else .error (after.fault .noValue)
termination_by c.rest.length

/-- Reads a list, brackets included. -/
def readList {α : Type} (room : Nat) (c : Cursor) (inside : Nat → Cursor → Reading α) : Reading α :=
  entering room c fun room c =>
    match inside room c with
    | .error f => .error f.pinList
    | .ok (x, c) =>
      match c.endList with
      | .error f => .error f
      | .ok c => .ok (x, c)

/-- Reads an object, braces included. -/
def readObject {α : Type} (room : Nat) (c : Cursor) (inside : Nat → Cursor → Reading α) : Reading α :=
  entering room c fun room c =>
    match inside room c with
    | .error f => .error f.pinObject
    | .ok (x, c) =>
      match c.endObject with
      | .error f => .error f
      | .ok c => .ok (x, c)

/-- A literal with its value. -/
def literal {α : Type} (c : Cursor) (letters : String) (value : α) : Reading α :=
  match c.eat.letters letters.toList with
  | .error f => .error f
  | .ok c => .ok (value, c)

/-- A scalar at the cursor: null, a truth value, a number or a string. -/
def readScalar (c : Cursor) : Reading Json :=
  match c.rest with
  | [] => .error (c.peekFault .endInValue)
  | 'n' :: _ => literal c "ull" .null
  | 't' :: _ => literal c "rue" (.bool true)
  | 'f' :: _ => literal c "alse" (.bool false)
  | '"' :: _ =>
    match c.string with
    | .error f => .error f
    | .ok (s, c) => .ok (.str s, c)
  | x :: _ => if x = '-' ∨ x.isDigit then c.number else .error (c.peekFault .noValue)

/-- Reads the value of a member and puts the member in front of those read before. -/
def addMember (value : Cursor → Reading Json) (name : String) (members : List (String × Json))
    (c : Cursor) : Reading (List (String × Json)) :=
  match c.colon with
  | .error f => .error f
  | .ok c =>
    match value c with
    | .error f => .error f
    | .ok (v, c) => .ok ((name, v) :: members, c)

/-- Reads a value. Each level of nesting takes one of `fuel` and one of `room`. -/
def readValueWith (fuel room : Nat) (c : Cursor) : Reading Json :=
  match fuel with
  | 0 => .error (c.peekFault .tooDeep)
  | fuel + 1 =>
    let c := c.skipBlanks
    match c.rest with
    | '[' :: _ =>
      readList room c fun room c =>
        match readItems (readValueWith fuel room) true c with
        | .error f => .error f
        | .ok (items, c) => .ok (.arr items, c)
    | '{' :: _ =>
      readObject room c fun room c =>
        match readMembers (addMember (readValueWith fuel room)) true [] c with
        | .error f => .error f
        | .ok (members, c) => .ok (.obj members.reverse, c)
    | _ => readScalar c

/-- Reads the next value of a text. -/
def readValue (room : Nat) (c : Cursor) : Reading Json :=
  readValueWith (room + 1) room c

/-- The value that a text holds. -/
def parse (text : String) : Except Fault Json := do
  let (v, c) ← readValue maxRoom (.ofString text)
  c.finish
  return v

/-- The complaint about the value at the cursor when another kind was wanted. A scalar is consumed;
an array or object is not. -/
def wrongType (c : Cursor) (expected : String) : Fault :=
  match c.rest with
  | '[' :: _ => .pinned (.wrongType .sequence expected) c.index
  | '{' :: _ => .pinned (.wrongType .map expected) c.index
  | _ =>
    match readScalar c with
    | .error f => f
    | .ok (v, c) => .pinned (.wrongType v.found expected) c.index

end Json
end Routine
