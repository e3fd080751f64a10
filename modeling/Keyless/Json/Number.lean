/-
The range of numbers that are no 64-bit integers.

Such a number has no value here, but it is a fault of its text if it lies beyond
every double.  That is judged on the number as it is computed: its digits make a
significand of at most 64 bits, a power of ten scales it, and both are rounded
to doubles before they are multiplied.
-/
import Keyless.Text

namespace Keyless.Json

/-- A significand times a power of ten. -/
structure Scaled where
  significand : Nat
  exponent : Int
deriving DecidableEq

namespace Scaled

/-- The significand with one more digit, as long as 64 bits hold it. -/
def extended? (significand : Nat) (digit : Char) : Option Nat :=
  let longer := Text.decimalValue [digit] + 10 * significand
  if longer < UInt64.size then some longer else none

/-- Whole digits behind a significand; from the first that does not fit, each only scales it. -/
def ofWhole (significand : Nat) : List Char → Scaled
  | [] => { significand, exponent := 0 }
  | digit :: rest =>
    match extended? significand digit with
    | some longer => ofWhole longer rest
    | none => { significand, exponent := rest.length + 1 }

/-- Digits behind the point; the first that does not fit and all after it are dropped. -/
def withFraction (number : Scaled) : List Char → Scaled
  | [] => number
  | digit :: rest =>
    match extended? number.significand digit with
    | some significand =>
      withFraction { significand, exponent := number.exponent - 1 } rest
    | none => number

/-- The number that digits before a point, digits behind it and an exponent write. -/
def ofDigits (whole fraction : List Char) (exponent : Int) : Scaled :=
  let number := (ofWhole 0 whole).withFraction fraction
  { number with exponent := number.exponent + exponent }

/-- The nearest number with 53 significant bits; a half goes to the even one. -/
def nearestDouble (n : Nat) : Nat :=
  let unit := 1 <<< (n.log2 - 52)
  let quotient := n / unit
  let double := 2 * (n % unit)
  if double > unit || (double = unit && quotient % 2 = 1) then (quotient + 1) * unit
  else quotient * unit

/-- The least number that rounds beyond every double: halfway above the greatest. -/
def beyondDouble : Nat := (1 <<< 1024) - (1 <<< 970)

/-- The greatest power of ten that is in the range of doubles. -/
def greatestExponent : Int := 308

/-- Whether the number lies beyond every double. -/
def isBeyondDouble (number : Scaled) : Bool :=
  number.significand != 0 &&
    (decide (greatestExponent < number.exponent) ||
      (decide (0 ≤ number.exponent) &&
        decide (beyondDouble ≤ nearestDouble number.significand *
          nearestDouble (Nat.pow 10 number.exponent.toNat))))

end Scaled

end Keyless.Json
