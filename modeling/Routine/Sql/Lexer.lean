import Routine.Sql.Token
import Routine.Text.Alphabetic
import Routine.Text.Blank
import Routine.Text.Location
import Routine.Text.Numeric

/-!
# Lexemes of a text

`lexemes` cuts a text into tokens from left to right. A step looks at the first character and the
text after it and answers with the token and the number of *further* characters that belong to it,
so every step consumes at least one character and the pieces put together are the text
(`flatten_source`). A text can be refused: a quote or comment that is never closed, or an escape
that means no character.
-/

namespace Routine
namespace Sql

open Text (Location isBlank isAlphabetic isNumeric)

/-- A token together with the characters that spell it. -/
structure Lexeme where
  token : Token
  source : List Char
deriving Repr

/-- Why a text cannot be cut into tokens, and where. -/
structure LexFault where
  message : String
  location : Location
deriving DecidableEq, Repr

namespace Lexer

/-- A fault during a step: its message, and how many characters after the start of the token it
lies. -/
abbrev StepFault := String × Nat

/-- A step's answer: a token and the number of further characters it takes. -/
abbrev Step := Except StepFault (Token × Nat)

/-! ## Words and character classes -/

/-- A character that can start a word. -/
def isWordStart (c : Char) : Bool :=
  isAlphabetic c || c = '_'

/-- A character that can continue a word. -/
def isWordPart (c : Char) : Bool :=
  isAlphabetic c || c.isDigit || c = '$' || c = '_'

/-- A character of an operator that the dialect does not name. -/
def isOperatorPart (c : Char) : Bool :=
  c ∈ ['+', '-', '*', '/', '<', '>', '=', '~', '!', '@', '#', '%', '^', '&', '|', '`', '?']

/-- The word that starts with the characters `first`. -/
def wordFrom (first : List Char) (cs : List Char) : Token × Nat :=
  let tail := cs.takeWhile isWordPart
  (.word (String.ofList (first ++ tail)) false, tail.length)

/-! ## Quoted strings -/

/-- The character that a backslash and this one stand for in a national or hexadecimal string. -/
def simpleEscape : Char → Char
  | '0' => '\x00'
  | 'a' => '\x07'
  | 'b' => '\x08'
  | 'f' => '\x0c'
  | 'n' => '\n'
  | 'r' => '\r'
  | 't' => '\t'
  | 'Z' => '\x1a'
  | c => c

/-- The text up to the closing mark and the number of characters through it; a doubled mark is one
mark of the text. Backslashes escape when `escapes` says so. -/
def quotedBody (mark : Char) (escapes : Bool) : List Char → Option (List Char × Nat)
  | [] => none
  | c :: cs =>
    if c = mark then
      match cs with
      | d :: ds =>
        if d = mark then
          (quotedBody mark escapes ds).map fun (text, n) => (mark :: text, n + 2)
        else some ([], 1)
      | [] => some ([], 1)
    else if c = '\\' ∧ escapes then
      match cs with
      | d :: ds => (quotedBody mark escapes ds).map fun (text, n) => (simpleEscape d :: text, n + 2)
      | [] => none
    else (quotedBody mark escapes cs).map fun (text, n) => (c :: text, n + 1)

/-- The value of a digit in a base up to sixteen. -/
def digitValue? (base : Nat) (c : Char) : Option Nat :=
  let value? :=
    if c.isDigit then some (c.toNat - '0'.toNat)
    else if 'a' ≤ c ∧ c ≤ 'f' then some (c.toNat - 'a'.toNat + 10)
    else if 'A' ≤ c ∧ c ≤ 'F' then some (c.toNat - 'A'.toNat + 10)
    else none
  value?.filter (· < base)

/-- A numeral in the base; none if some character is no digit. -/
def numeral? (base : Nat) (cs : List Char) : Option Nat :=
  cs.foldlM (fun n c => (digitValue? base c).map (n * base + ·)) 0

/-- The character with a code point, if the code point has one. -/
def charOf? (n : Nat) : Option Char :=
  if h : n.isValidChar then some (Char.ofNatAux n h) else none

/-- A code point given by a fixed number of hexadecimal digits, with a plus sign allowed in the
place of the first. -/
def codePoint? (cs : List Char) : Option Char :=
  let digits := match cs with
    | '+' :: rest => rest
    | cs => cs
  (numeral? 16 digits).bind charOf?

/-- An ASCII character given by the digits of its number, taken modulo 256. -/
def byteChar? (base : Nat) (cs : List Char) : Option Char :=
  (numeral? base cs).bind fun n => if n % 256 ≤ 127 then some (Char.ofNat (n % 256)) else none

/-- The character that an escape of an `E'…'` string stands for, from the text after the backslash,
and the number of characters of the escape after the backslash. -/
def escape? : List Char → Option (Char × Nat)
  | [] => none
  | c :: cs =>
    match c with
    | 'b' => some ('\x08', 1)
    | 'f' => some ('\x0c', 1)
    | 'n' => some ('\n', 1)
    | 'r' => some ('\r', 1)
    | 't' => some ('\t', 1)
    | 'u' => if 4 ≤ cs.length then (codePoint? (cs.take 4)).map (·, 5) else none
    | 'U' => if 8 ≤ cs.length then (codePoint? (cs.take 8)).map (·, 9) else none
    | 'x' =>
      let digits := (cs.take 2).takeWhile fun d => (digitValue? 16 d).isSome
      if digits.isEmpty then some ('x', 1) else (byteChar? 16 digits).map (·, digits.length + 1)
    | c =>
      if (digitValue? 8 c).isSome then
        let digits := (cs.take 2).takeWhile fun d => (digitValue? 8 d).isSome
        (byteChar? 8 (c :: digits)).map (·, digits.length + 1)
      else some (c, 1)

/-- The text of an `E'…'` string after its opening quote, and the number of characters through the
closing quote. An escape that stands for no character or for the null character refuses it. -/
def escapedBody (cs : List Char) : Option (List Char × Nat) :=
  match cs with
  | [] => none
  | '\'' :: '\'' :: rest => (escapedBody rest).map fun (text, n) => ('\'' :: text, n + 2)
  | '\'' :: _ => some ([], 1)
  | '\\' :: rest =>
    match escape? rest with
    | none => none
    | some (c, k) =>
      if c = '\x00' then none
      else (escapedBody (rest.drop k)).map fun (text, n) => (c :: text, n + 1 + k)
  | c :: rest => (escapedBody rest).map fun (text, n) => (c :: text, n + 1)
termination_by cs.length
decreasing_by all_goals simp only [List.length_cons, List.length_drop]; omega

/-- A code point of a `U&'…'` string, given by `k` digits; `done` characters of the string have
been read before them. -/
def codePointAt (done : Nat) : (k : Nat) → (value : Nat) → List Char → Except StepFault (Char × Nat)
  | 0, value, _ =>
    match charOf? value with
    | some c => .ok (c, done)
    | none => .error ("Invalid unicode character: " ++ String.ofList (Nat.toDigits 16 value), done)
  | _ + 1, _, [] =>
    .error ("Unexpected EOF while parsing hex digit in escaped unicode string.", done)
  | k + 1, value, c :: cs =>
    match digitValue? 16 c with
    | some d => codePointAt (done + 1) k (value * 16 + d) cs
    | none =>
      .error ("Invalid hex digit in escaped unicode string: " ++ c.toString, done + 1)

/-- The text of a `U&'…'` string after its opening quote, and the number of characters through the
closing quote. `done` characters of the token have been read before. -/
def unicodeBody (done : Nat) (cs : List Char) : Except StepFault (List Char × Nat) :=
  match cs with
  | [] => .error ("Unterminated unicode encoded string literal", done)
  | '\'' :: '\'' :: rest => do
    let (text, n) ← unicodeBody (done + 2) rest
    return ('\'' :: text, n)
  | '\'' :: _ => .ok ([], done + 1)
  | '\\' :: '\\' :: rest => do
    let (text, n) ← unicodeBody (done + 2) rest
    return ('\\' :: text, n)
  | '\\' :: '+' :: rest => do
    let (c, _) ← codePointAt (done + 2) 6 0 rest
    let (text, n) ← unicodeBody (done + 8) (rest.drop 6)
    return (c :: text, n)
  | '\\' :: rest => do
    let (c, _) ← codePointAt (done + 1) 4 0 rest
    let (text, n) ← unicodeBody (done + 5) (rest.drop 4)
    return (c :: text, n)
  | c :: rest => do
    let (text, n) ← unicodeBody (done + 1) rest
    return (c :: text, n)
termination_by cs.length
decreasing_by all_goals simp only [List.length_cons, List.length_drop]; omega

/-! ## Dollar quoting and comments -/

/-- The text up to the next two dollar signs in a row, and the number of characters through them. -/
def untaggedBody : List Char → Option (List Char × Nat)
  | [] => none
  | '$' :: '$' :: _ => some ([], 2)
  | c :: cs => (untaggedBody cs).map fun (text, n) => (c :: text, n + 1)

/-- The token that a dollar sign starts, from the text after it. -/
def dollarStep (cs : List Char) : Step :=
  match cs with
  | '$' :: rest =>
    match untaggedBody rest with
    | some (text, n) => .ok (.dollar none (String.ofList text), n + 1)
    | none => .error ("Unterminated dollar-quoted string", cs.length + 1)
  | cs =>
    let tag := cs.takeWhile fun c => isAlphabetic c || isNumeric c || c = '_'
    match cs.drop tag.length with
    | '$' :: rest =>
      match Text.findPiece ('$' :: tag ++ ['$']) rest with
      | some n =>
        let name := if tag.isEmpty then none else some (String.ofList tag)
        .ok (.dollar name (String.ofList (rest.take n)), tag.length + 1 + n + (tag.length + 2))
      | none => .error ("Unterminated dollar-quoted, expected $", cs.length + 1)
    | _ => .ok (.placeholder (String.ofList ('$' :: tag)), tag.length)

/-- Number of characters through the end of a line comment: its newline or carriage return belongs
to it. -/
def lineComment : List Char → Nat
  | [] => 0
  | c :: cs => if c = '\n' ∨ c = '\r' then 1 else lineComment cs + 1

/-- Number of characters through the end of a block comment `open` levels deep; block comments
nest. -/
def blockComment (depth : Nat) : List Char → Option Nat
  | '/' :: '*' :: cs => (blockComment (depth + 1) cs).map (· + 2)
  | '*' :: '/' :: cs =>
    if depth ≤ 1 then some 2 else (blockComment (depth - 1) cs).map (· + 2)
  | _ :: cs => (blockComment depth cs).map (· + 1)
  | [] => none

/-! ## Numbers -/

/-- The exponent that a number continues with: a mark, a sign or none, and at least one digit. -/
def exponent (cs : List Char) : List Char :=
  match cs with
  | c :: rest =>
    if c = 'e' ∨ c = 'E' then
      let head := match rest with
        | s :: _ => if s = '+' ∨ s = '-' then [c, s] else [c]
        | [] => [c]
      let digits := (cs.drop head.length).takeWhile Char.isDigit
      if digits.isEmpty then [] else head ++ digits
    else []
  | [] => []

/-- The number or period that starts here. -/
def numberFrom (cs : List Char) : Token × Nat :=
  let whole := cs.takeWhile Char.isDigit
  let rest := cs.drop whole.length
  if whole = ['0'] ∧ rest.head? = some 'x' then
    let digits := (rest.drop 1).takeWhile fun d => (digitValue? 16 d).isSome
    (.string .hex (String.ofList digits), digits.length + 2)
  else
    let point := if rest.head? = some '.' then ['.'] else []
    let fraction := (rest.drop point.length).takeWhile Char.isDigit
    let plain := whole ++ point ++ fraction
    if plain = ['.'] then (.sign ".", 1)
    else
      let digits := plain ++ exponent (cs.drop plain.length)
      let long := (cs.drop digits.length).head? = some 'L'
      (.number (String.ofList digits) long, digits.length + (if long then 1 else 0))

/-! ## Operators -/

/-- The sign, or the unnamed operator that it and the operator characters after it spell. `taken`
further characters belong to the sign itself. -/
def operator (text : String) (taken : Nat) (cs : List Char) : Token × Nat :=
  let tail := (cs.drop taken).takeWhile isOperatorPart
  if tail.isEmpty then (.sign text, taken)
  else (.custom (text ++ String.ofList tail), taken + tail.length)

/-- An operator that the dialect names. -/
structure Named where
  spelling : List Char
  /-- How messages show it. -/
  shown : String
  /-- Operator characters after it make a longer operator of it. -/
  grows : Bool
deriving Repr

/-- The named operators. Of two that start alike the longer one comes first. -/
def named : List Named :=
  [⟨['-', '>', '>'], "->>", true⟩, ⟨['-', '>'], "->", true⟩, ⟨['-'], "-", true⟩,
   ⟨['/'], "/", false⟩, ⟨['+'], "+", false⟩, ⟨['*'], "*", false⟩, ⟨['%'], "%", true⟩,
   ⟨['|', '|', '/'], "||/", true⟩, ⟨['|', '|'], "||", true⟩, ⟨['|', '/'], "|/", true⟩,
   ⟨['|'], "|", true⟩,
   ⟨['=', '>'], "=>", false⟩, ⟨['=', '='], "==", false⟩, ⟨['='], "=", false⟩,
   ⟨['!', '~', '~', '*'], "!~~*", false⟩, ⟨['!', '~', '~'], "!~~", false⟩,
   ⟨['!', '~', '*'], "!~*", false⟩, ⟨['!', '~'], "!~", false⟩, ⟨['!', '='], "<>", false⟩,
   ⟨['!', '!'], "!!", false⟩, ⟨['!'], "!", false⟩,
   ⟨['<', '=', '>'], "<=>", true⟩, ⟨['<', '='], "<=", true⟩, ⟨['<', '>'], "<>", true⟩,
   ⟨['<', '<'], "<<", true⟩, ⟨['<', '@'], "<@", true⟩, ⟨['<'], "<", true⟩,
   ⟨['>', '='], ">=", true⟩, ⟨['>', '>'], ">>", true⟩, ⟨['>'], ">", true⟩,
   ⟨[':', ':'], "::", false⟩, ⟨[':', '='], ":=", false⟩, ⟨[':'], ":", false⟩,
   ⟨['&', '&'], "&&", true⟩, ⟨['&'], "&", true⟩, ⟨['^', '@'], "^@", false⟩, ⟨['^'], "^", false⟩,
   ⟨['~', '~', '*'], "~~*", true⟩, ⟨['~', '~'], "~~", true⟩, ⟨['~', '*'], "~*", true⟩,
   ⟨['~'], "~", true⟩,
   ⟨['#', '>', '>'], "#>>", true⟩, ⟨['#', '>'], "#>", true⟩, ⟨['#', '-'], "#-", true⟩,
   ⟨['#'], "#", true⟩,
   ⟨['@', '>'], "@>", false⟩, ⟨['@', '?'], "@?", false⟩, ⟨['@', '@'], "@@", false⟩,
   ⟨['@'], "@", false⟩, ⟨['?', '|'], "?|", false⟩, ⟨['?', '&'], "?&", false⟩]

/-- The token of a named operator, from the text after its first character. -/
def Named.read (n : Named) (cs : List Char) : Token × Nat :=
  let taken := n.spelling.length - 1
  if n.grows then operator n.shown taken cs else (.sign n.shown, taken)

/-- The operator that starts with this character, if operators start with it. A question mark that
starts no named operator takes the character after it along. -/
def operatorStep (c : Char) (cs : List Char) : Option (Token × Nat) :=
  match named.find? fun n => n.spelling.isPrefixOf (c :: cs) with
  | some n => some (n.read cs)
  | none => if c = '?' then some (.sign "?", min 1 cs.length) else none

/-! ## One token -/

/-- A string whose opening quote stands `at` characters after the start of the token. -/
def stringStep (kind : StringKind) (mark : Char) (escapes : Bool) (opening : Nat) (body : List Char) : Step :=
  match quotedBody mark escapes body with
  | some (text, n) => .ok (.string kind (String.ofList text), opening + n)
  | none => .error ("Unterminated string literal", opening)

/-- A letter that introduces a string notation when a quote follows, and a word otherwise. -/
def letterStep (c : Char) (cs : List Char) : Option Step :=
  match c, cs with
  | 'b', '\'' :: body | 'B', '\'' :: body => some (stringStep .bits '\'' false 1 body)
  | 'b', '"' :: body | 'B', '"' :: body => some (stringStep .wideBits '"' false 1 body)
  | 'n', '\'' :: body | 'N', '\'' :: body => some (stringStep .national '\'' true 1 body)
  | 'x', '\'' :: body | 'X', '\'' :: body => some (stringStep .hex '\'' true 1 body)
  | 'e', '\'' :: body | 'E', '\'' :: body =>
    some <| match escapedBody body with
      | some (text, n) => .ok (.string .escaped (String.ofList text), n + 1)
      | none => .error ("Unterminated encoded string literal", 0)
  | 'u', '&' :: '\'' :: body | 'U', '&' :: '\'' :: body =>
    some do
      let (text, n) ← unicodeBody 3 body
      return (.string .unicode (String.ofList text), n - 1)
  | _, _ => none

/-- The token that starts with this character, and how many of the following characters it takes. -/
def step (c : Char) (cs : List Char) : Step :=
  match c, cs with
  | '\r', '\n' :: _ => .ok (.gap, 1)
  | '-', '-' :: rest => .ok (.gap, lineComment rest + 1)
  | '/', '*' :: rest =>
    match blockComment 1 rest with
    | some n => .ok (.gap, n + 1)
    | none => .error ("Unexpected EOF while in a multi-line comment", cs.length + 1)
  | '\'', body => stringStep .plain '\'' false 0 body
  | '"', body =>
    match quotedBody '"' false body with
    | some (text, n) => .ok (.word (String.ofList text) true, n)
    | none => .error ("Expected close delimiter '\"' before EOF.", 0)
  | '$', rest => dollarStep rest
  | c, cs =>
    if c = ' ' ∨ c = '\t' ∨ c = '\n' ∨ c = '\r' then .ok (.gap, 0)
    else if c.isDigit ∨ c = '.' then
      let (token, n) := numberFrom (c :: cs)
      .ok (token, n - 1)
    else if c ∈ ['(', ')', ',', ';', '\\', '[', ']', '{', '}'] then .ok (.sign c.toString, 0)
    else
      match letterStep c cs with
      | some answer => answer
      | none =>
        match operatorStep c cs with
        | some answer => .ok answer
        | none =>
          if isWordStart c then .ok (wordFrom [c] cs)
          else if isBlank c then .ok (.gap, 0)
          else .ok (.char c, 0)

/-- The lexemes of a text that stands at a location. -/
def lexemesFrom (here : Location) (cs : List Char) : Except LexFault (List Lexeme) :=
  match cs with
  | [] => .ok []
  | c :: rest =>
    match step c rest with
    | .error (message, n) => .error ⟨message, here.after ((c :: rest).take n)⟩
    | .ok (token, k) =>
      let source := c :: rest.take k
      match lexemesFrom (here.after source) (rest.drop k) with
      | .error fault => .error fault
      | .ok more => .ok (⟨token, source⟩ :: more)
termination_by cs.length
decreasing_by simp only [List.length_cons, List.length_drop]; omega

end Lexer

/-- The lexemes of a text, blanks and comments included. -/
def lexemes (text : List Char) : Except LexFault (List Lexeme) :=
  Lexer.lexemesFrom Location.start text

/-- The pieces of a text, put together, are the text. -/
theorem Lexer.flatten_source {cs : List Char} {here : Location} {ls : List Lexeme}
    (h : Lexer.lexemesFrom here cs = .ok ls) : (ls.map Lexeme.source).flatten = cs := by
  fun_induction Lexer.lexemesFrom here cs generalizing ls with
  | case1 => cases h; rfl
  | case2 => cases h
  | case3 => cases h
  | case4 here c rest token k hs source more hm =>
    cases h
    rename_i ih
    simp [source, ih hm]

end Sql
end Routine
