/-
ECDSA signatures over P-256 and SHA-256.

A signature is the DER sequence of two integers.  Only its shortest form is read,
so each pair of integers has one encoding.
-/
import Keyless.Certificate.Curve
import Keyless.Hash.Sha256

namespace Keyless.Ecdsa

/-- The two numbers of a signature. -/
structure Value where
  r : Nat
  s : Nat
deriving DecidableEq, Repr

/-- Reads a DER element with a tag and at most 127 octets of content; the rest follows. -/
def element? (tag : UInt8) : Bytes → Option (Bytes × Bytes)
  | t :: length :: rest =>
    if t = tag ∧ length < 0x80 ∧ length.toNat ≤ rest.length then
      some (rest.take length.toNat, rest.drop length.toNat)
    else none
  | _ => none

/-- The value of the content of an integer that is not negative and has no octet too many. -/
def natural? : Bytes → Option Nat
  | [] => none
  | [a] => if a < 0x80 then some a.toNat else none
  | a :: b :: rest =>
    if 0x80 ≤ a ∨ (a = 0 ∧ b < 0x80) then none else some (Bytes.toNat (a :: b :: rest))

/-- Reads a signature. -/
def Value.ofOctets? (octets : Bytes) : Option Value := do
  let (content, rest) ← element? 0x30 octets
  if rest ≠ [] then none
  let (r, content) ← element? 0x02 content
  let (s, content) ← element? 0x02 content
  if content ≠ [] then none
  return { r := ← natural? r, s := ← natural? s }

/-- Whether a signature's numbers belong to a message under a public key. -/
def Value.isFor (v : Value) (key : Curve.Point) (message : Bytes) : Bool :=
  let inRange (n : Nat) := 0 < n && n < Curve.order
  if inRange v.r && inRange v.s then
    let digest := Bytes.toNat (Hash.Sha256.sha256.digest message)
    let inverse := Curve.inverse Curve.order v.s
    let own := Curve.Point.base.times (digest * inverse % Curve.order)
    let theirs := key.times (v.r * inverse % Curve.order)
    match own.add theirs with
    | .infinity => false
    | .affine x _ => x % Curve.order = v.r
  else false

/-- Whether octets are a signature over a message that the public key accepts. -/
def accepts (key message signature : Bytes) : Bool :=
  match Curve.Point.ofOctets? key, Value.ofOctets? signature with
  | some point, some value => value.isFor point message
  | _, _ => false

end Keyless.Ecdsa
