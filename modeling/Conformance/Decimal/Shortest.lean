/-! Decimal numerals of binary numbers: the binary number next to a decimal one, and the fewest
decimal digits that lead back to it. Binary numbers have 53 digits and an exponent from -1074 to
971. -/

namespace Conformance.Decimal

/-- The number `mantissa * 2 ^ exponent`. -/
structure Binary where
  mantissa : Nat
  exponent : Int
  deriving DecidableEq

def leastExponent : Int := -1074

def greatestExponent : Int := 971

/-- The least mantissa of 53 digits, `2 ^ 52`. -/
def leastMantissa : Nat := 4503599627370496

/-- `base ^ exponent` as a numerator and a denominator. -/
def power (base : Nat) (exponent : Int) : Nat × Nat :=
  if 0 ≤ exponent then (Nat.pow base exponent.toNat, 1) else (1, Nat.pow base (-exponent).toNat)

/-- The integer next to a quotient; of two as near the even one. -/
def roundQuotient (num den : Nat) : Nat :=
  let floor := num / den
  let twice := 2 * (num % den)
  if twice < den then floor
  else if den < twice then floor + 1
  else floor + floor % 2

/-- The binary number next to a positive quotient, if it is not too large. -/
def nearest? (num den : Nat) : Option Binary :=
  let estimate : Int := (Nat.log2 num : Int) - Nat.log2 den - 53
  let scaled (exponent : Int) : Nat × Nat :=
    let (up, down) := power 2 exponent
    (num * down, den * up)
  let (n, d) := scaled estimate
  let exponent := max leastExponent (if n / d < 2 * leastMantissa then estimate else estimate + 1)
  let (n, d) := scaled exponent
  let mantissa := roundQuotient n d
  let rounded : Binary :=
    if mantissa = 2 * leastMantissa then ⟨leastMantissa, exponent + 1⟩ else ⟨mantissa, exponent⟩
  if greatestExponent < rounded.exponent then none else some rounded

/-- The exponent of the leading decimal digit of a positive quotient. -/
def leadingExponent (num den : Nat) : Int :=
  if den ≤ num then ((Nat.toDigits 10 (num / den)).length : Int) - 1
  else
    match (List.range 400).find? fun shift => den ≤ num * Nat.pow 10 shift with
    | some shift => -(shift : Int)
    | none => 0

/-- The decimal number `digits * 10 ^ exponent`. -/
structure Numeral where
  digits : Nat
  exponent : Int
  deriving DecidableEq

/-- The numeral nearest to a positive binary number among those that lead back to it and have at
most `count` digits; of two as near the greater one. A numeral leads back to the number if it lies
between the middles to the numbers next to it; the middles themselves do if the mantissa is
even. -/
def withDigits? (b : Binary) (count : Nat) : Option Numeral :=
  let (up, down) := power 2 (b.exponent - 2)
  let value := 4 * b.mantissa * up
  let high := (4 * b.mantissa + 2) * up
  let gapBelow := if b.mantissa = leastMantissa && leastExponent < b.exponent then 1 else 2
  let low := (4 * b.mantissa - gapBelow) * up
  let exponent := leadingExponent value down - (count : Int) + 1
  let (unitUp, unitDown) := power 10 exponent
  let unit := down * unitUp
  let floor := value * unitDown / unit
  let even := b.mantissa % 2 = 0
  let leadsBack (digits : Nat) : Bool :=
    let point := digits * unit
    if even then low * unitDown ≤ point && point ≤ high * unitDown
    else low * unitDown < point && point < high * unitDown
  let below := value * unitDown - floor * unit
  let above := (floor + 1) * unit - value * unitDown
  match leadsBack floor, leadsBack (floor + 1) with
  | true, true => some ⟨if below < above then floor else floor + 1, exponent⟩
  | true, false => some ⟨floor, exponent⟩
  | false, true => some ⟨floor + 1, exponent⟩
  | false, false => none

/-- The shortest numeral that leads back to a positive binary number. -/
def shortest (b : Binary) : Numeral :=
  ((List.range 17).findSome? fun count => withDigits? b (count + 1)).getD ⟨0, 0⟩

/-- A numeral without an exponent, and with at least one digit on either side of its point. -/
def Numeral.positional (n : Numeral) : String :=
  let digits := Nat.toDigits 10 n.digits
  if 0 ≤ n.exponent then
    String.ofList (digits ++ List.replicate n.exponent.toNat '0') ++ ".0"
  else
    let places := (-n.exponent).toNat
    let padded := List.replicate (places + 1 - digits.length) '0' ++ digits
    let whole := padded.take (padded.length - places)
    let part := padded.drop (padded.length - places)
    let kept := (part.reverse.dropWhile (· == '0')).reverse
    String.ofList whole ++ "." ++ (if kept.isEmpty then "0" else String.ofList kept)

/-- A number from `10 ^ greatestMagnitude` on is too large. -/
def greatestMagnitude : Int := 310

/-- A number below `10 ^ leastMagnitude` has zero next to it. -/
def leastMagnitude : Int := -330

/-- The binary number next to `digits * 10 ^ exponent`, written as short as possible. A number that
is too large has no text. -/
def text? (digits : Nat) (exponent : Int) : Option String :=
  let magnitude := exponent + (Nat.toDigits 10 digits).length
  if digits = 0 || magnitude < leastMagnitude then some "0.0"
  else if greatestMagnitude < magnitude then none
  else
    let (up, down) := power 10 exponent
    (nearest? (digits * up) down).map fun b =>
      if b.mantissa = 0 then "0.0" else (shortest b).positional

end Conformance.Decimal
