/-!
# Shortest decimal text of a binary fraction

A 64-bit floating point number is the integer `m` times a power of two. The reals that round to it
form an interval around it, and among the decimals in that interval the one with the fewest digits
is written, the nearest of those if there are two. Everything is exact arithmetic on natural
numbers; no floating point operation is used.
-/

namespace Routine
namespace Decimal

/-- A finite number `mantissa · 2 ^ exponent`, with the sign apart. `atEdge` says that the next
smaller number is nearer than the next larger one. -/
structure Binary where
  negative : Bool
  mantissa : Nat
  exponent : Int
  atEdge : Bool

/-- The number that 64 bits stand for, taken as finite. -/
def Binary.ofBits (bits : UInt64) : Binary :=
  let n := bits.toNat
  let fraction := n % Nat.pow 2 52
  let scale : Nat := n / Nat.pow 2 52 % Nat.pow 2 11
  let negative := n / Nat.pow 2 63 = 1
  if scale = 0 then ⟨negative, fraction, -1074, false⟩
  else ⟨negative, fraction + Nat.pow 2 52, (scale : Int) - 1075, fraction = 0 && 1 < scale⟩

/-- Decimal digits and the power of ten of the first of them. -/
structure Digits where
  digits : List Char
  power : Int

/-- Whole number of tenfold steps by which `num / den` lies above (or below) one. -/
def magnitude (num den : Nat) : Int :=
  if den ≤ num then ((Nat.toDigits 10 (num / den)).length : Int) - 1
  else
    match (List.range 400).find? fun j => den ≤ num * Nat.pow 10 (j + 1) with
    | some j => -((j : Int) + 1)
    | none => -400

/-- The decimal digits of a number without the zeros it ends with. -/
def significant (n : Nat) : List Char :=
  let ds := ((Nat.toDigits 10 n).reverse.dropWhile (· = '0')).reverse
  if ds.isEmpty then ['0'] else ds

/-- The shortest digits of a positive number. The number, the ends of its interval and the decimal
grid are all put over the one denominator `den`. -/
def shortest (b : Binary) : Digits :=
  let (up, den) : Nat × Nat :=
    if 0 ≤ b.exponent then (Nat.pow 2 b.exponent.toNat, 4) else (1, 4 * Nat.pow 2 (-b.exponent).toNat)
  let value := 4 * b.mantissa * up
  let low := (4 * b.mantissa - (if b.atEdge then 1 else 2)) * up
  let high := (4 * b.mantissa + 2) * up
  let closed := b.mantissa % 2 = 0
  let top := magnitude value den
  let inside (x : Nat) (scale : Nat) : Bool :=
    if closed then low * scale ≤ x && x ≤ high * scale else low * scale < x && x < high * scale
  let onGrid (k : Nat) : Option Digits :=
    let unit := top - (k : Int)
    let (grid, scale) : Nat × Nat :=
      if 0 ≤ unit then (Nat.pow 10 unit.toNat * den, 1) else (den, Nat.pow 10 (-unit).toNat)
    let below := value * scale / grid
    let candidates := [below, below + 1].filter fun n => inside (n * grid) scale
    let distance (n : Nat) : Nat := (n * grid - value * scale) + (value * scale - n * grid)
    let best := candidates.foldl (fun (best : Option Nat) n =>
      match best with
      | some m => if distance n < distance m then some n else some m
      | none => some n) none
    best.map fun n => ⟨significant n, unit + ((Nat.toDigits 10 n).length : Int) - 1⟩
  ((List.range 17).findSome? onGrid).getD ⟨significant b.mantissa, 0⟩

/-! ## Styles -/

/-- How a decimal is written: the powers of ten that are written without an exponent, and the
exponent's sign and width. -/
structure Style where
  least : Int
  greatest : Int
  plusSign : Bool
  exponentWidth : Nat

/-- The exponent as the style writes it. -/
def Style.exponent (n : Style) (power : Int) : String :=
  let digits := Nat.toDigits 10 power.natAbs
  let padding := List.replicate (n.exponentWidth - digits.length) '0'
  let sign := if power < 0 then "-" else if n.plusSign then "+" else ""
  "e" ++ sign ++ String.ofList (padding ++ digits)

/-- Digits in the style. Without an exponent a whole number still has one digit after the
point. -/
def Style.write (n : Style) (d : Digits) : String :=
  if n.least ≤ d.power ∧ d.power ≤ n.greatest then
    if d.power < 0 then
      "0." ++ String.ofList (List.replicate (-d.power - 1).toNat '0' ++ d.digits)
    else
      let whole := d.power.toNat + 1
      let fraction := d.digits.drop whole
      String.ofList (d.digits.take whole ++ List.replicate (whole - d.digits.length) '0') ++ "." ++
        (if fraction.isEmpty then "0" else String.ofList fraction)
  else
    let head := String.ofList (d.digits.take 1)
    let tail := d.digits.drop 1
    head ++ (if tail.isEmpty then "" else "." ++ String.ofList tail) ++ n.exponent d.power

/-- The text of a finite floating point number in the style. -/
def Style.text (n : Style) (bits : UInt64) : String :=
  let b := Binary.ofBits bits
  let sign := if b.negative then "-" else ""
  if b.mantissa = 0 then sign ++ "0.0" else sign ++ n.write (shortest b)

end Decimal
end Routine
