import Routine.Json.Number

/-!
# Passing over a value

A member that nobody asks for is not decoded, but it still has to be JSON. Passing over it has no
limit on nesting: the number of characters that are left bounds the recursion.
-/

namespace Routine
namespace Json
namespace Cursor

mutual

/-- Passes over the next value. -/
def skipValueWith (fuel : Nat) (c : Cursor) : Except Fault Cursor :=
  match fuel with
  | 0 => .error (c.fault .tooDeep)
  | fuel + 1 =>
    let c := c.skipBlanks
    match c.rest with
    | [] => .error (c.peekFault .endInValue)
    | 'n' :: _ => c.eat.letters "ull".toList
    | 't' :: _ => c.eat.letters "rue".toList
    | 'f' :: _ => c.eat.letters "alse".toList
    | '"' :: _ => skipString c.eat.index c.eat.rest
    | '[' :: _ =>
      let inside := c.eat.skipBlanks
      match inside.rest with
      | [] => .error (inside.peekFault .endInList)
      | ']' :: _ => .ok inside.eat
      | _ => skipItemsWith fuel inside
    | '{' :: _ =>
      let inside := c.eat.skipBlanks
      match inside.rest with
      | [] => .error (inside.peekFault .endInObject)
      | '}' :: _ => .ok inside.eat
      | _ => skipMembersWith fuel inside
    | x :: _ =>
      if x = '-' ∨ x.isDigit then c.skipNumber else .error (c.peekFault .noValue)

/-- Passes over the elements of a list and its closing bracket. -/
def skipItemsWith (fuel : Nat) (c : Cursor) : Except Fault Cursor :=
  match fuel with
  | 0 => .error (c.fault .tooDeep)
  | fuel + 1 =>
    match skipValueWith fuel c with
    | .error f => .error f
    | .ok c =>
      let c := c.skipBlanks
      match c.rest with
      | [] => .error (c.peekFault .endInList)
      | ']' :: _ => .ok c.eat
      | ',' :: _ => skipItemsWith fuel c.eat
      | _ => .error (c.peekFault .noListSeparator)

/-- Passes over the members of an object and its closing brace. -/
def skipMembersWith (fuel : Nat) (c : Cursor) : Except Fault Cursor :=
  match fuel with
  | 0 => .error (c.fault .tooDeep)
  | fuel + 1 =>
    let c := c.skipBlanks
    match c.rest with
    | [] => .error (c.peekFault .endInObject)
    | '"' :: _ =>
      match skipString c.eat.index c.eat.rest with
      | .error f => .error f
      | .ok c =>
        match c.colon with
        | .error f => .error f
        | .ok c =>
          match skipValueWith fuel c with
          | .error f => .error f
          | .ok c =>
            let c := c.skipBlanks
            match c.rest with
            | [] => .error (c.peekFault .endInObject)
            | '}' :: _ => .ok c.eat
            | ',' :: _ => skipMembersWith fuel c.eat
            | _ => .error (c.peekFault .noObjectSeparator)
    | _ => .error (c.peekFault .keyNotString)

end

/-- Passes over the next value. -/
def skipValue (c : Cursor) : Except Fault Cursor :=
  skipValueWith (c.rest.length + 1) c

end Cursor
end Json
end Routine
