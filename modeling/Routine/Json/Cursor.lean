import Routine.Json.Fault
import Routine.Text.Find

/-!
# Scanning JSON text

The parts of JSON that are read alike whatever the wanted shape: blanks, the separators of lists and
objects, literals and strings. A fault about the next character points one byte behind it (or to the
end of the text, if there is none); a fault about what has been consumed points to the cursor.
-/

namespace Routine
namespace Json
namespace Cursor

/-- The cursor at the start of a text. -/
def ofString (text : String) : Cursor :=
  ⟨text.toList, 0⟩

/-- The cursor after the next character. -/
def eat (c : Cursor) : Cursor :=
  match c.rest with
  | [] => c
  | x :: xs => ⟨xs, c.index + x.utf8Size⟩

/-- A blank of JSON. -/
def isJsonBlank (c : Char) : Bool :=
  c = ' ' || c = '\n' || c = '\t' || c = '\r'

/-- The cursor after the blanks. -/
def skipBlanks (c : Cursor) : Cursor :=
  let blanks := c.rest.takeWhile isJsonBlank
  ⟨c.rest.drop blanks.length, c.index + blanks.length⟩

/-- A fault about the next character. -/
def peekFault (c : Cursor) (cause : Malformed) : Fault :=
  .malformed cause (if c.rest.isEmpty then c.index else c.index + 1)

/-- A fault about what has been consumed. -/
def fault (c : Cursor) (cause : Malformed) : Fault :=
  .malformed cause c.index

/-- Consumes the letters of a literal. -/
def letters (c : Cursor) : List Char → Except Fault Cursor
  | [] => .ok c
  | x :: xs =>
    match c.rest with
    | [] => .error (c.fault .endInValue)
    | y :: _ => if y = x then c.eat.letters xs else .error (.malformed .noIdent (c.index + 1))

/-! ## Strings -/

/-- The value of four hexadecimal digits. -/
def hexValue? (ds : List Char) : Option Nat :=
  ds.foldlM (fun n d =>
    if d.isDigit then some (n * 16 + (d.toNat - '0'.toNat))
    else if 'a' ≤ d ∧ d ≤ 'f' then some (n * 16 + (d.toNat - 'a'.toNat + 10))
    else if 'A' ≤ d ∧ d ≤ 'F' then some (n * 16 + (d.toNat - 'A'.toNat + 10))
    else none) 0

/-- The code unit that four digits at the index give. -/
def codeUnit (index : Nat) (text : List Char) : Except Fault Nat :=
  let bytes := Text.byteLength (text.take 4)
  if bytes < 4 then .error (.malformed .endInString (index + bytes))
  else
    match hexValue? (text.take 4) with
    | some n => .ok n
    | none => .error (.malformed .badEscape (index + 4))

/-- The one-letter escapes. -/
def letterEscape? : Char → Option Char
  | '"' => some '"'
  | '\\' => some '\\'
  | '/' => some '/'
  | 'b' => some '\x08'
  | 'f' => some '\x0c'
  | 'n' => some '\n'
  | 'r' => some '\r'
  | 't' => some '\t'
  | _ => none

/-- The character of an escape, from the text after its backslash, and the number of characters
after the backslash that belong to it. A high surrogate has to be followed by a low one. -/
def escape (index : Nat) (text : List Char) : Except Fault (Char × Nat) :=
  match text with
  | [] => .error (.malformed .endInString index)
  | 'u' :: text => do
    let high ← codeUnit (index + 1) text
    if 0xDC00 ≤ high ∧ high ≤ 0xDFFF then throw (.malformed .loneSurrogate (index + 5))
    if high < 0xD800 ∨ 0xDBFF < high then return (Char.ofNat high, 5)
    match text.drop 4 with
    | [] => throw (.malformed .endInString (index + 5))
    | '\\' :: [] => throw (.malformed .endInString (index + 6))
    | '\\' :: 'u' :: text =>
      let low ← codeUnit (index + 7) text
      if low < 0xDC00 ∨ 0xDFFF < low then throw (.malformed .loneSurrogate (index + 11))
      return (Char.ofNat (0x10000 + (high - 0xD800) * 0x400 + (low - 0xDC00)), 11)
    | '\\' :: _ :: _ => throw (.malformed .halfSurrogate (index + 7))
    | _ :: _ => throw (.malformed .halfSurrogate (index + 6))
  | c :: _ =>
    match letterEscape? c with
    | some x => .ok (x, 1)
    | none => .error (.malformed .badEscape (index + 1))

/-- The characters of a string whose opening quote has been consumed, and the cursor after its
closing quote. -/
def stringBody (index : Nat) (text : List Char) : Except Fault (List Char × Cursor) :=
  match text with
  | [] => .error (.malformed .endInString index)
  | '"' :: rest => .ok ([], ⟨rest, index + 1⟩)
  | '\\' :: rest =>
    match escape (index + 1) rest with
    | .error f => .error f
    | .ok (x, k) =>
      match stringBody (index + 1 + k) (rest.drop k) with
      | .error f => .error f
      | .ok (xs, after) => .ok (x :: xs, after)
  | x :: rest =>
    if x.toNat < 0x20 then .error (.malformed .controlCharacter (index + 1))
    else
      match stringBody (index + x.utf8Size) rest with
      | .error f => .error f
      | .ok (xs, after) => .ok (x :: xs, after)
termination_by text.length
decreasing_by all_goals simp only [List.length_cons, List.length_drop]; omega

/-- The string at the cursor, whose opening quote is the next character. -/
def string (c : Cursor) : Reading String :=
  match stringBody c.eat.index c.eat.rest with
  | .ok (xs, after) => .ok (String.ofList xs, after)
  | .error f => .error f

/-- Passes over a string whose opening quote has been consumed. Surrogates need no partner here. -/
def skipString (index : Nat) (text : List Char) : Except Fault Cursor :=
  match text with
  | [] => .error (.malformed .endInString index)
  | '"' :: rest => .ok ⟨rest, index + 1⟩
  | '\\' :: [] => .error (.malformed .endInString (index + 1))
  | '\\' :: 'u' :: rest =>
    match codeUnit (index + 2) rest with
    | .error f => .error f
    | .ok _ => skipString (index + 6) (rest.drop 4)
  | '\\' :: x :: rest =>
    if (letterEscape? x).isSome then skipString (index + 2) rest
    else .error (.malformed .badEscape (index + 2))
  | x :: rest =>
    if x.toNat < 0x20 then .error (.malformed .controlCharacter index)
    else skipString (index + x.utf8Size) rest
termination_by text.length
decreasing_by all_goals simp only [List.length_cons, List.length_drop]; omega

/-! ## Separators -/

/-- Before an element of a list: whether there is one, and the cursor before it or before the
closing bracket. `first` says that no element came before. -/
def nextItem (c : Cursor) (first : Bool) : Except Fault (Bool × Cursor) :=
  let c := c.skipBlanks
  match c.rest with
  | [] => .error (c.peekFault .endInList)
  | ']' :: _ => .ok (false, c)
  | x :: _ =>
    if first then .ok (true, c)
    else if x = ',' then
      let c := c.eat.skipBlanks
      match c.rest with
      | ']' :: _ => .error (c.peekFault .trailingComma)
      | [] => .error (c.peekFault .endInValue)
      | _ => .ok (true, c)
    else .error (c.peekFault .noListSeparator)

/-- Consumes the closing bracket of a list. -/
def endList (c : Cursor) : Except Fault Cursor :=
  let c := c.skipBlanks
  match c.rest with
  | [] => .error (c.peekFault .endInList)
  | ']' :: _ => .ok c.eat
  | ',' :: _ =>
    let c := c.eat.skipBlanks
    match c.rest with
    | ']' :: _ => .error (c.peekFault .trailingComma)
    | _ => .error (c.peekFault .trailingCharacters)
  | _ => .error (c.peekFault .trailingCharacters)

/-- The cursor after as much of the end of a list as is there. -/
def tryEndList (c : Cursor) : Cursor :=
  let c := c.skipBlanks
  match c.rest with
  | ']' :: _ => c.eat
  | ',' :: _ => c.eat.skipBlanks
  | _ => c

/-- Before a member of an object: whether there is one, and the cursor before its name or before the
closing brace. `first` says that no member came before. -/
def nextMember (c : Cursor) (first : Bool) : Except Fault (Bool × Cursor) :=
  let c := c.skipBlanks
  match c.rest with
  | [] => .error (c.peekFault .endInObject)
  | '}' :: _ => .ok (false, c)
  | x :: _ =>
    if first then
      if x = '"' then .ok (true, c) else .error (c.peekFault .keyNotString)
    else if x = ',' then
      let c := c.eat.skipBlanks
      match c.rest with
      | '"' :: _ => .ok (true, c)
      | '}' :: _ => .error (c.peekFault .trailingComma)
      | [] => .error (c.peekFault .endInValue)
      | _ => .error (c.peekFault .keyNotString)
    else .error (c.peekFault .noObjectSeparator)

/-- Consumes the closing brace of an object. -/
def endObject (c : Cursor) : Except Fault Cursor :=
  let c := c.skipBlanks
  match c.rest with
  | [] => .error (c.peekFault .endInObject)
  | '}' :: _ => .ok c.eat
  | ',' :: _ => .error (c.peekFault .trailingComma)
  | _ => .error (c.peekFault .trailingCharacters)

/-- The cursor after as much of the end of an object as is there. -/
def tryEndObject (c : Cursor) : Cursor :=
  let c := c.skipBlanks
  match c.rest with
  | '}' :: _ => c.eat
  | _ => c

/-- Consumes the colon between a name and its value. -/
def colon (c : Cursor) : Except Fault Cursor :=
  let c := c.skipBlanks
  match c.rest with
  | [] => .error (c.peekFault .endInObject)
  | ':' :: _ => .ok c.eat
  | _ => .error (c.peekFault .noColon)

/-- The text has nothing but blanks left. -/
def finish (c : Cursor) : Except Fault Unit :=
  let c := c.skipBlanks
  match c.rest with
  | [] => .ok ()
  | _ => .error (c.peekFault .trailingCharacters)

end Cursor

/-! ## The place of a complaint -/

/-- Gives a complaint about a list its place: reading first passes what is left of the list's end. -/
def Fault.pinList : Fault → Fault
  | .loose complaint here => .pinned complaint here.tryEndList.index
  | f => f

/-- Gives a complaint about an object its place: reading first passes what is left of the object's
end. -/
def Fault.pinObject : Fault → Fault
  | .loose complaint here => .pinned complaint here.tryEndObject.index
  | f => f

end Json
end Routine
