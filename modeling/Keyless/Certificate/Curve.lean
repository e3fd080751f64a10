/-
The elliptic curve P-256: y² = x³ - 3x + b over the integers modulo a prime.
-/
import Keyless.Bytes

namespace Keyless.Curve

/-- The prime of the field. -/
def prime : Nat := 0xffffffff00000001000000000000000000000000ffffffffffffffffffffffff

/-- The coefficient b. -/
def coefficient : Nat := 0x5ac635d8aa3a93e7b3ebbd55769886bc651d06b0cc53b0f63bce3c3e27d2604b

/-- How many multiples the base point has. -/
def order : Nat := 0xffffffff00000000ffffffffffffffffbce6faada7179e84f3b9cac2fc632551

/-- The power `base ^ exponent` modulo `modulus`. -/
def powerMod (modulus base exponent : Nat) : Nat :=
  if h : exponent = 0 then 1 % modulus
  else
    let half := powerMod modulus (base * base % modulus) (exponent / 2)
    if exponent % 2 = 1 then half * base % modulus else half
termination_by exponent
decreasing_by omega

/-- The inverse modulo a prime, by Fermat's little theorem. -/
def inverse (modulus value : Nat) : Nat := powerMod modulus value (modulus - 2)

/-- A point: the neutral one, or one with coordinates. -/
inductive Point where
  | infinity
  | affine (x y : Nat)
deriving DecidableEq

/-- The difference modulo the prime, of numbers below it. -/
def subtract (a b : Nat) : Nat := (a + prime - b) % prime

namespace Point

/-- Whether numbers are the coordinates of a point on the curve. -/
def isOnCurve (x y : Nat) : Bool :=
  x < prime && y < prime && y * y % prime = (subtract (x * x % prime * x % prime) (3 * x % prime) +
    coefficient) % prime

/-- The third point on a line through two points, reflected in the x-axis. -/
def chord (slope x1 y1 x2 : Nat) : Point :=
  let x := subtract (subtract (slope * slope % prime) x1) x2
  affine x (subtract (slope * subtract x1 x % prime) y1)

/-- The sum of two points. -/
def add : Point → Point → Point
  | infinity, q => q
  | p, infinity => p
  | affine x1 y1, affine x2 y2 =>
    if x1 = x2 then
      if y1 = y2 ∧ y1 ≠ 0 then
        let slope := subtract (3 * x1 * x1 % prime) 3 * inverse prime (2 * y1 % prime) % prime
        chord slope x1 y1 x2
      else infinity
    else
      chord (subtract y2 y1 * inverse prime (subtract x2 x1) % prime) x1 y1 x2

/-- The sum of `count` times a point. -/
def times (count : Nat) (p : Point) : Point :=
  if h : count = 0 then infinity
  else
    let half := times (count / 2) (p.add p)
    if count % 2 = 1 then half.add p else half
termination_by count
decreasing_by omega

/-- The base point. -/
def base : Point := affine
  0x6b17d1f2e12c4247f8bce6e563a440f277037d812deb33a0f4a13945d898c296
  0x4fe342e2fe1a7f9b8ee7eb4a7c0f9e162bce33576b315ececbb6406837bf51f5

/-- Reads an uncompressed point: the octet 4, then two coordinates of 32 octets. -/
def ofOctets? : Bytes → Option Point
  | 0x04 :: coordinates =>
    if coordinates.length = 64 then
      let x := Bytes.toNat (coordinates.take 32)
      let y := Bytes.toNat (coordinates.drop 32)
      if isOnCurve x y then some (affine x y) else none
    else none
  | _ => none

end Point

end Keyless.Curve
