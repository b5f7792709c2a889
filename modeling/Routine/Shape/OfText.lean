import Routine.Json.Read
import Routine.Shape.Basic

/-!
# Decoding text by shape

The same decisions as for a JSON value, made while the text is read. What differs is only what a
text can have and a value cannot: places, repeated members, a limit on nesting, and faults of the
text itself, which count when they are met before a complaint. Members that the shape does not name
are passed over but must still be JSON.
-/

namespace Routine

open Json (Complaint Cursor Fault Reading)

namespace Shape

/-- Reads a scalar and decodes it. -/
def readScalar {α : Type} (expected : String) (decode : Json → Except Complaint α) (c : Cursor) :
    Reading α :=
  let c := c.skipBlanks
  match c.rest with
  | '[' :: _ | '{' :: _ => .error (Json.wrongType c expected)
  | _ =>
    match Json.readScalar c with
    | .error f => .error f
    | .ok (v, c) =>
      match decode v with
      | .ok a => .ok (a, c)
      | .error k => .error (.pinned k c.index)

/-- Reads null, or else a value. -/
def readOption {α : Type} (item : Cursor → Reading α) (c : Cursor) : Reading (Option α) :=
  let c := c.skipBlanks
  match c.rest with
  | 'n' :: _ => Json.literal c "ull" none
  | _ =>
    match item c with
    | .error f => .error f
    | .ok (a, c) => .ok (some a, c)

/-- Reads the only member of a tagged object. -/
def readTagged {α : Type} (tag : String) (item : Cursor → Reading α) (c : Cursor) : Reading α :=
  match c.nextMember true with
  | .error f => .error f
  | .ok (false, c) => .error (.loose (.wrongLength 0 (taggedName tag)) c)
  | .ok (true, c) =>
    match c.string with
    | .error f => .error f
    | .ok (name, c) =>
      if name ≠ tag then .error (.loose (.unknownVariant name [tag]) c)
      else
        match c.colon with
        | .error f => .error f
        | .ok c =>
          match item c with
          | .error f => .error f
          | .ok (a, c) =>
            match c.nextMember false with
            | .error f => .error f
            | .ok (false, c) => .ok (a, c)
            | .ok (true, c) =>
              match c.string with
              | .error f => .error f
              | .ok (_, c) => .error (.loose (.wrongLength 2 (taggedName tag)) c)

/-- A tag of a family, read as a string. -/
def readTag {α : Type} (tags : List String) (payload : String → Option α) (c : Cursor) :
    Reading α :=
  let c := c.skipBlanks
  match c.rest with
  | '"' :: _ =>
    match c.string with
    | .error f => .error f
    | .ok (name, c) =>
      match payload name with
      | some a => .ok (a, c)
      | none => .error (.pinned (.unknownVariant name tags) c.index)
  | _ => .error (Json.wrongType c "variant identifier")

/-- Consumes the brace after the value of a family. -/
def closeVariant (c : Cursor) : Except Fault Cursor :=
  let c := c.skipBlanks
  match c.rest with
  | '}' :: _ => .ok c.eat
  | [] => .error (c.fault .endInObject)
  | _ => .error (c.fault .noValue)

/-- Reads a value of a family: an object with a tag, or a bare tag. A value under a tag is read with
the room that is left inside the object. -/
def readChoice {α : Type} (tags : List String)
    (payload : String → Option (Option Nat → Cursor → Reading α)) (room : Nat) (c : Cursor) :
    Reading α :=
  let c := c.skipBlanks
  match c.rest with
  | '{' :: _ =>
    Json.entering room c fun room c =>
      match readTag tags payload c with
      | .error f => .error f
      | .ok (read, c) =>
        match c.colon with
        | .error f => .error f
        | .ok c =>
          match read (some room) c with
          | .error f => .error f
          | .ok (a, c) =>
            match closeVariant c with
            | .error f => .error f
            | .ok c => .ok (a, c)
  | '"' :: _ =>
    match readTag tags payload c with
    | .error f => .error f
    | .ok (read, c) => read none c
  | [] => .error (c.peekFault .endInValue)
  | _ => .error (c.peekFault .noValue)

end Shape

namespace Fields

/-- Reads a record from an object or an array. -/
def read {α σ : Type} (fields : Fields α σ) (title : String)
    (setMember : Nat → String → σ → Cursor → Reading σ)
    (items : Nat → (expected : String) → (i : Nat) → (first : Bool) → Cursor → Reading α)
    (room : Nat) (c : Cursor) : Reading α :=
  let c := c.skipBlanks
  match c.rest with
  | '[' :: _ =>
    Json.readList room c fun room c => items room (counted title fields.count) 0 true c
  | '{' :: _ =>
    Json.readObject room c fun room c =>
      match Json.readMembers (setMember room) true fields.none c with
      | .error f => .error f
      | .ok (state, c) =>
        match fields.complete state with
        | .ok a => .ok (a, c)
        | .error name => .error (.loose (.missingField name) c)
  | _ => .error (Json.wrongType c title)

/-- Reads a record from an array. -/
def readArray {α σ : Type} (fields : Fields α σ) (title : String)
    (items : Nat → (expected : String) → (i : Nat) → (first : Bool) → Cursor → Reading α)
    (room : Nat) (c : Cursor) : Reading α :=
  let c := c.skipBlanks
  match c.rest with
  | '[' :: _ =>
    Json.readList room c fun room c => items room (counted title fields.count) 0 true c
  | _ => .error (Json.wrongType c title)

end Fields

/-- Applies a function to what was read. -/
def Json.mapReading {α β : Type} (f : α → β) : Reading α → Reading β
  | .ok (a, c) => .ok (f a, c)
  | .error e => .error e

mutual

/-- Decodes the next value of a text. `room` more arrays and objects may be opened. -/
def Shape.ofText : {α : Type} → Shape α → (room : Nat) → Cursor → Reading α
  | _, .int32, _, c => Shape.readScalar "i32" Shape.int32? c
  | _, .int64, _, c => Shape.readScalar "i64" Shape.int64? c
  | _, .natural, _, c => Shape.readScalar "u64" Shape.natural? c
  | _, .bool, _, c => Shape.readScalar "a boolean" Shape.bool? c
  | _, .string, _, c => Shape.readScalar "a string" Shape.string? c
  | _, .character, _, c => Shape.readScalar "a character" Shape.character? c
  | _, .option item, room, c => Shape.readOption (item.ofText room) c
  | _, .list item, room, c =>
    let c := c.skipBlanks
    match c.rest with
    | '[' :: _ => Json.readList room c fun room c => Json.readItems (item.ofText room) true c
    | _ => .error (Json.wrongType c "a sequence")
  | _, .record title fields, room, c => fields.read title fields.setText fields.itemsText room c
  | _, .tagged tag item, room, c =>
    let c := c.skipBlanks
    match c.rest with
    | '{' :: _ => Json.readObject room c fun room c => Shape.readTagged tag (item.ofText room) c
    | _ => .error (Json.wrongType c (Shape.taggedName tag))
  | _, .choice variants, room, c => Shape.readChoice variants.tags variants.textOfTag room c
  | _, .convert read _ item, room, c =>
    match item.ofText room c with
    | .error f => .error f
    | .ok (a, c) =>
      match read a with
      | .error message => .error (.loose (.refused message) c)
      | .ok b => .ok (b, c)
  | _, .either title read _, room, c =>
    match Json.readValue room c with
    | .error f => .error f
    | .ok (v, c) =>
      match read v with
      | some a => .ok (a, c)
      | none => .error (.loose (.noAlternative title) c)
  | _, .codec codec, room, c => codec.ofText room c
  | _, .exhausted, _, c => .error (c.peekFault .tooDeep)

/-- Decodes the value of a member, before its colon, into its place. A value under a name that the
record does not have is passed over. -/
def Fields.setText : {α σ : Type} → Fields α σ → (room : Nat) → String → σ → Cursor → Reading σ
  | _, _, .nil, _, _, state, c =>
    match c.colon with
    | .error f => .error f
    | .ok c =>
      match c.skipValue with
      | .error f => .error f
      | .ok c => .ok (state, c)
  | _, _, .cons name item _ _ _ rest, room, key, (x, xs), c =>
    if key = name then
      if x.isSome then .error (.loose (.duplicateField name) c)
      else
        match c.colon with
        | .error f => .error f
        | .ok c => Json.mapReading (fun a => (some a, xs)) (item.ofText room c)
    else Json.mapReading (x, ·) (rest.setText room key xs c)

/-- Decodes members from the elements of an array in order. `i` members come before these, and
`first` says that no element has been read. -/
def Fields.itemsText : {α σ : Type} → Fields α σ → (room : Nat) → (expected : String) → (i : Nat) →
    (first : Bool) → Cursor → Reading α
  | _, _, .nil, _, _, _, _, c => .ok ((), c)
  | _, _, .cons _ item _ whenShort _ rest, room, expected, i, first, c =>
    match c.nextItem first with
    | .error f => .error f
    | .ok (false, c) =>
      match whenShort with
      | none => .error (.loose (.wrongLength i expected) c)
      | some a => Json.mapReading (a, ·) (rest.itemsText room expected (i + 1) first c)
    | .ok (true, c) =>
      match item.ofText room c with
      | .error f => .error f
      | .ok (a, c) => Json.mapReading (a, ·) (rest.itemsText room expected (i + 1) false c)

/-- How the value under a tag is decoded, if the family has the tag. A tag given as a bare string
has no room and no value. -/
def Variants.textOfTag : {α : Type} → Variants α → String →
    Option (Option Nat → Cursor → Reading α)
  | _, .nil, _ => none
  | _, .bare tag value _ rest, name =>
    if name = tag then
      some fun
        | none, c => .ok (value, c)
        | some _, c =>
          let c := c.skipBlanks
          match c.rest with
          | 'n' :: _ => Json.literal c "ull" value
          | _ => .error (Json.wrongType c "unit")
    else rest.textOfTag name
  | _, .holding tag item inject _ rest, name =>
    if name = tag then
      some fun
        | none, c => .error (.loose (.wrongType .bareTag "newtype variant") c)
        | some room, c => Json.mapReading inject (item.ofText room c)
    else rest.textOfTag name
  | _, .named tag title fields inject _ rest, name =>
    if name = tag then
      some fun
        | none, c => .error (.loose (.wrongType .bareTag "struct variant") c)
        | some room, c => Json.mapReading inject (fields.read title fields.setText fields.itemsText room c)
    else rest.textOfTag name
  | _, .positional tag title fields inject _ rest, name =>
    if name = tag then
      some fun
        | none, c => .error (.loose (.wrongType .bareTag "tuple variant") c)
        | some room, c => Json.mapReading inject (fields.readArray title fields.itemsText room c)
    else rest.textOfTag name

end

/-- Decodes a whole text. -/
def Shape.parse {α : Type} (shape : Shape α) (text : String) : Except Fault α :=
  match shape.ofText Json.maxRoom (.ofString text) with
  | .error f => .error f
  | .ok (a, c) =>
    match c.finish with
    | .error f => .error f
    | .ok () => .ok a

end Routine
