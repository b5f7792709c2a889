import Routine.Json.Fault

/-!
# Shapes: a language for JSON formats

A `Shape α` says how values of the type `α` look in JSON. It is data, and three interpreters give it
meaning: `Shape.write` encodes a value, `Shape.ofJson` decodes a JSON value, and `Shape.ofText`
decodes text without building a JSON value first. What is proved about the three by induction on
shapes holds of every format that is written down as a shape.

`Fields α σ` is the shape of a record whose members form the product type `α`; `σ` is the type of its
partly read states, one optional component for each member. `Variants α` is the shape of a closed
family of tagged values.

A format may hold values whose own format is not described here. Their place is held by a `Codec`, which
is three functions, one for each interpreter.
-/

namespace Routine

/-- How values of a type are written and read, where no shape describes it. -/
structure Codec (α : Type) where
  write : α → Json
  ofJson : Json → Except Json.Complaint α
  /-- Decodes the next value of a text. `room` more arrays and objects may be opened. -/
  ofText : (room : Nat) → Json.Cursor → Json.Reading α

mutual

/-- How the values of a type look in JSON. -/
inductive Shape : Type → Type 1
  /-- A whole number of 32 bits. -/
  | int32 : Shape Int32
  /-- A whole number of 64 bits. -/
  | int64 : Shape Int64
  /-- A natural number of 64 bits. -/
  | natural : Shape Nat
  | bool : Shape Bool
  | string : Shape String
  /-- A string of one character. -/
  | character : Shape Char
  /-- A value, or null. -/
  | option {α : Type} (item : Shape α) : Shape (Option α)
  /-- An array. -/
  | list {α : Type} (item : Shape α) : Shape (List α)
  /-- An object with named members, or an array of them in order. -/
  | record {α σ : Type} (title : String) (fields : Fields α σ) : Shape α
  /-- An object whose only member has the tag for its name. -/
  | tagged {α : Type} (tag : String) (item : Shape α) : Shape α
  /-- One of several tagged values. -/
  | choice {α : Type} (variants : Variants α) : Shape α
  /-- A value that is converted after reading, unless the conversion refuses it. -/
  | convert {α β : Type} (read : α → Except String β) (write : β → α) (item : Shape α) : Shape β
  /-- A value of one of several kinds that are told apart by looking at it. -/
  | either {α : Type} (title : String) (read : Json → Option α) (write : α → Json) : Shape α
  /-- A value that a codec writes and reads. -/
  | codec {α : Type} (c : Codec α) : Shape α
  /-- A place below the deepest level that is described. Nothing is read there. -/
  | exhausted {α : Type} : Shape α

/-- The members of a record in their order. -/
inductive Fields : Type → Type → Type 1
  | nil : Fields Unit Unit
  /-- A member: its name and shape, its value when an object lacks it, its value when an array is
  too short for it, and the values that are not written. -/
  | cons {α β σ : Type} (name : String) (item : Shape α) (whenAbsent whenShort : Option α)
      (isHidden : α → Bool) (rest : Fields β σ) : Fields (α × β) (Option α × σ)

/-- The members of a closed family. Each says which values of the family it stands for. -/
inductive Variants : Type → Type 1
  | nil {α : Type} : Variants α
  /-- A tag that stands for one value. -/
  | bare {α : Type} (tag : String) (value : α) (isThis : α → Bool) (rest : Variants α) : Variants α
  /-- A tag with a value of another shape. -/
  | holding {α β : Type} (tag : String) (item : Shape β) (inject : β → α) (project : α → Option β)
      (rest : Variants α) : Variants α
  /-- A tag with named members. -/
  | named {α β σ : Type} (tag title : String) (fields : Fields β σ) (inject : β → α)
      (project : α → Option β) (rest : Variants α) : Variants α
  /-- A tag with members told apart by their place. -/
  | positional {α β σ : Type} (tag title : String) (fields : Fields β σ) (inject : β → α)
      (project : α → Option β) (rest : Variants α) : Variants α

end

namespace Fields

variable {α β σ : Type}

/-- A member that has to be there and is always written. -/
def required (name : String) (item : Shape α) (rest : Fields β σ) : Fields (α × β) (Option α × σ) :=
  cons name item none none (fun _ => false) rest

/-- A member with a default that is always written. -/
def defaulted (name : String) (item : Shape α) (default : α) (rest : Fields β σ) :
    Fields (α × β) (Option α × σ) :=
  cons name item (some default) (some default) (fun _ => false) rest

/-- A member that may be missing and is not written when it has no value. -/
def optional (name : String) (item : Shape α) (rest : Fields β σ) :
    Fields (Option α × β) (Option (Option α) × σ) :=
  cons name (.option item) (some none) (some none) Option.isNone rest

/-- A member that may be missing in an object, and is written as null when it has no value. -/
def nullable (name : String) (item : Shape α) (rest : Fields β σ) :
    Fields (Option α × β) (Option (Option α) × σ) :=
  cons name (.option item) (some none) none (fun _ => false) rest

/-- A truth value that is false when it is missing, and is not written when it is false. -/
def flag (name : String) (rest : Fields β σ) : Fields (Bool × β) (Option Bool × σ) :=
  cons name .bool (some false) (some false) (fun b => !b) rest

/-- Number of members. -/
def count : {α σ : Type} → Fields α σ → Nat
  | _, _, nil => 0
  | _, _, cons _ _ _ _ _ rest => rest.count + 1

/-- The state in which no member has been read. -/
def none : {α σ : Type} → Fields α σ → σ
  | _, _, nil => ()
  | _, _, cons _ _ _ _ _ rest => (Option.none, rest.none)

/-- The record, once every member has been read or has a value without that; otherwise the name of
the first member that lacks one. -/
def complete : {α σ : Type} → Fields α σ → σ → Except String α
  | _, _, nil, () => .ok ()
  | _, _, cons name _ whenAbsent _ _ rest, (x, xs) =>
    match x <|> whenAbsent with
    | Option.none => .error name
    | some a =>
      match rest.complete xs with
      | .error missing => .error missing
      | .ok b => .ok (a, b)

/-- What a record of the title is called when the number of its elements is wrong. -/
def counted (title : String) (n : Nat) : String :=
  title ++ " with " ++ toString n ++ (if n = 1 then " element" else " elements")

end Fields

/-- The tags of a family in their order. -/
def Variants.tags : {α : Type} → Variants α → List String
  | _, .nil => []
  | _, .bare tag _ _ rest => tag :: rest.tags
  | _, .holding tag _ _ _ rest => tag :: rest.tags
  | _, .named tag _ _ _ _ rest => tag :: rest.tags
  | _, .positional tag _ _ _ _ rest => tag :: rest.tags

namespace Shape

/-! ## Scalars -/

/-- The number fits 32 bits. -/
def isInt32 (n : Int) : Bool :=
  Int32.minValue.toInt ≤ n && n ≤ Int32.maxValue.toInt

/-- The number fits 64 bits. -/
def isInt64 (n : Int) : Bool :=
  Int64.minValue.toInt ≤ n && n ≤ Int64.maxValue.toInt

/-- Whole numbers of 32 bits. -/
def int32? : Json → Except Json.Complaint Int32
  | .int n =>
    if isInt32 n then .ok (Int32.ofInt n) else .error (.wrongValue (.int n) "i32")
  | v => .error (.wrongType v.found "i32")

/-- Whole numbers of 64 bits. -/
def int64? : Json → Except Json.Complaint Int64
  | .int n =>
    if isInt64 n then .ok (Int64.ofInt n) else .error (.wrongValue (.int n) "i64")
  | v => .error (.wrongType v.found "i64")

/-- Natural numbers. -/
def natural? : Json → Except Json.Complaint Nat
  | .int n => if 0 ≤ n then .ok n.toNat else .error (.wrongValue (.int n) "u64")
  | v => .error (.wrongType v.found "u64")

/-- Truth values. -/
def bool? : Json → Except Json.Complaint Bool
  | .bool b => .ok b
  | v => .error (.wrongType v.found "a boolean")

/-- Strings. -/
def string? : Json → Except Json.Complaint String
  | .str s => .ok s
  | v => .error (.wrongType v.found "a string")

/-- Strings of one character. -/
def character? : Json → Except Json.Complaint Char
  | .str s =>
    match s.toList with
    | [c] => .ok c
    | _ => .error (.wrongValue (.str s) "a character")
  | v => .error (.wrongType v.found "a character")

/-- What complaints call an object with the tag. -/
def taggedName (tag : String) : String :=
  "an object tagged `" ++ tag ++ "`"

end Shape
end Routine
