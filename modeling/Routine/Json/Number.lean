import Routine.Json.Cursor

/-!
# Numbers in JSON text

A number is scanned into its parts, and its value is a function of the parts. Digits are taken into
a 64-bit significand from the left until it would overflow; digits that are not taken count as a
power of ten before the point and are dropped after it. The floating point value is the significand
times that power of ten.
-/

namespace Routine
namespace Json

/-- The parts of a number. -/
structure Numeral where
  negative : Bool
  whole : List Char
  fraction : List Char
  exponent : List Char
  negativeExponent : Bool
  /-- The number has a fraction or an exponent. -/
  isDecimal : Bool

namespace Numeral

/-- The greatest integer of 64 bits without sign. -/
def maxUnsigned : Nat := 0xFFFFFFFFFFFFFFFF

/-- The greatest exponent that is calculated with. -/
def maxExponent : Nat := 0x7FFFFFFF

/-- The value of a decimal digit. -/
def digit (c : Char) : Nat := c.toNat - '0'.toNat

/-- Takes digits into the significand until it would overflow: the significand, and how many digits
were taken. -/
def absorb (significand : Nat) : List Char → Nat × Nat
  | [] => (significand, 0)
  | d :: ds =>
    let next := significand * 10 + digit d
    if maxUnsigned < next then (significand, 0)
    else
      let (final, taken) := absorb next ds
      (final, taken + 1)

/-- Number of digits through the one at which the exponent passes its limit. -/
def overflowAt (exponent : Nat) : List Char → Option Nat
  | [] => none
  | d :: ds =>
    let next := exponent * 10 + digit d
    if maxExponent < next then some 1 else (overflowAt next ds).map (· + 1)

/-- The natural number that decimal digits stand for. -/
def natOf (ds : List Char) : Nat :=
  ds.foldl (fun n d => n * 10 + digit d) 0

/-- A power of ten as a floating point number. -/
def powerOfTen (n : Nat) : Float :=
  Float.ofScientific 1 false n

/-- The value times a power of ten; none if it is too large. Steps below the smallest power are
taken at most `fuel` times: after that the value is zero. -/
def scale (fuel : Nat) (x : Float) (power : Int) : Option Float :=
  if power.natAbs ≤ 308 then
    if 0 ≤ power then
      let y := x * powerOfTen power.natAbs
      if y.isInf then none else some y
    else some (x / powerOfTen power.natAbs)
  else if x == 0.0 then some x
  else if 0 ≤ power then none
  else
    match fuel with
    | 0 => some 0.0
    | fuel + 1 => scale fuel (x / powerOfTen 308) (power + 308)

/-- A floating point value with its sign. -/
def signed (negative : Bool) (x : Float) : Json :=
  .float (if negative then -x else x).toBits

/-- The value of a number. A value that is too large is refused with the number of exponent digits
after which that is seen, or none if it is seen at the end. -/
def value (n : Numeral) : Except (Option Nat) Json :=
  let (whole, taken) := absorb 0 n.whole
  let dropped := n.whole.length - taken
  if n.isDecimal = false ∧ dropped = 0 then
    if n.negative then
      if 0 < whole ∧ whole ≤ 0x8000000000000000 then .ok (.int (-(whole : Int)))
      else .ok (signed true whole.toUInt64.toFloat)
    else .ok (.int whole)
  else
    let (significand, after) := absorb whole n.fraction
    let power : Int := (dropped : Int) - after
    match overflowAt 0 n.exponent with
    | some k =>
      if significand ≠ 0 ∧ n.negativeExponent = false then .error (some k)
      else .ok (signed n.negative 0.0)
    | none =>
      let exponent : Int := natOf n.exponent
      let power := if n.negativeExponent then power - exponent else power + exponent
      match scale 4 significand.toUInt64.toFloat power with
      | some x => .ok (signed n.negative x)
      | none => .error none

end Numeral

namespace Cursor

/-- The digits at the cursor, and the cursor after them. -/
def digits (c : Cursor) : List Char × Cursor :=
  let ds := c.rest.takeWhile Char.isDigit
  (ds, ⟨c.rest.drop ds.length, c.index + ds.length⟩)

/-- The digits before the point. A zero stands alone. -/
def wholeDigits (c : Cursor) (atEnd : Malformed) : Except Fault (List Char × Cursor) :=
  match c.rest with
  | [] => .error (c.fault atEnd)
  | '0' :: _ =>
    let after := c.eat
    match after.rest with
    | d :: _ => if d.isDigit then .error (after.peekFault .badNumber) else .ok (['0'], after)
    | [] => .ok (['0'], after)
  | d :: _ => if d.isDigit then .ok c.digits else .error (.malformed .badNumber (c.index + 1))

/-- The digits after the point, if a point is next. -/
def fractionDigits (c : Cursor) (atEnd : Malformed) : Except Fault (Option (List Char) × Cursor) :=
  match c.rest with
  | '.' :: _ =>
    let (ds, after) := c.eat.digits
    if ds.isEmpty then
      .error (after.peekFault (if after.rest.isEmpty then atEnd else .badNumber))
    else .ok (some ds, after)
  | _ => .ok (none, c)

/-- The sign and the digits of an exponent, if its mark is next. -/
def exponentDigits (c : Cursor) (atEnd : Malformed) :
    Except Fault (Option (Bool × List Char) × Cursor) :=
  match c.rest with
  | x :: _ =>
    if x = 'e' ∨ x = 'E' then
      let afterMark := c.eat
      let (negative, afterSign) := match afterMark.rest with
        | '+' :: _ => (false, afterMark.eat)
        | '-' :: _ => (true, afterMark.eat)
        | _ => (false, afterMark)
      match afterSign.rest with
      | [] => .error (afterSign.fault atEnd)
      | d :: _ =>
        if d.isDigit then
          let (ds, after) := afterSign.digits
          .ok (some (negative, ds), after)
        else .error (.malformed .badNumber (afterSign.index + 1))
    else .ok (none, c)
  | [] => .ok (none, c)

/-- The parts of the number at the cursor. `atEnd` is the fault of a text that ends too early. -/
def numeral (c : Cursor) (atEnd : Malformed) : Except Fault (Numeral × Cursor) := do
  let (negative, c) := match c.rest with
    | '-' :: _ => (true, c.eat)
    | _ => (false, c)
  let (whole, c) ← c.wholeDigits atEnd
  let (fraction, c) ← c.fractionDigits atEnd
  let (exponent, c) ← c.exponentDigits atEnd
  return ({ negative := negative
            whole := whole
            fraction := fraction.getD []
            exponent := (exponent.map (·.2)).getD []
            negativeExponent := (exponent.map (·.1)).getD false
            isDecimal := fraction.isSome || exponent.isSome }, c)

/-- The number at the cursor. -/
def number (c : Cursor) : Except Fault (Json × Cursor) := do
  let (n, after) ← c.numeral .endInValue
  match n.value with
  | .ok v => return (v, after)
  | .error (some k) => throw (.malformed .outOfRange (after.index - n.exponent.length + k))
  | .error none => throw (after.fault .outOfRange)

/-- Passes over a number. -/
def skipNumber (c : Cursor) : Except Fault Cursor := do
  let (_, after) ← c.numeral .badNumber
  return after

end Cursor
end Json
end Routine
