/-
Octets as hexadecimal text.

Writing uses lower case; reading takes either case and nothing else.  Reading
looks at the UTF-8 octets of the text, so a position in an error is an octet
position.
-/
import Keyless.Text

namespace Keyless

/-- Why a text is not hexadecimal. -/
inductive HexError where
  /-- The number of octets is odd. -/
  | oddLength
  /-- The octet at the position is no hexadecimal digit. -/
  | invalidDigit (octet : UInt8) (position : Nat)
deriving DecidableEq, Repr

/-- The wording of a hexadecimal error. -/
def HexError.message : HexError → String
  | .oddLength => "Odd number of digits"
  | .invalidDigit octet position =>
    "Invalid character " ++ Text.quotedOctet octet ++ " at position " ++ toString position

namespace Hex

/-- The two digits of an octet. -/
def digits (octet : UInt8) : List Char :=
  [Text.hexDigit (octet.toNat / 16), Text.hexDigit (octet.toNat % 16)]

/-- Two lower-case digits for each octet. -/
def encode (bytes : Bytes) : String := String.ofList (bytes.flatMap digits)

/-- The value of an ASCII digit, in either case. -/
def value? (octet : UInt8) : Option Nat :=
  let n := octet.toNat
  if 48 ≤ n ∧ n ≤ 57 then some (n - 48)
  else if 97 ≤ n ∧ n ≤ 102 then some (n - 87)
  else if 65 ≤ n ∧ n ≤ 70 then some (n - 55)
  else none

/-- Reads pairs of digits; `position` is where the first of them stands. -/
def decodePairs (position : Nat) : Bytes → Except HexError Bytes
  | high :: low :: rest =>
    match value? high, value? low with
    | none, _ => .error (.invalidDigit high position)
    | some _, none => .error (.invalidDigit low (position + 1))
    | some h, some l =>
      (decodePairs (position + 2) rest).map (UInt8.ofNat (16 * h + l) :: ·)
  | _ => .ok []

/-- Reads hexadecimal octets.  An odd length is reported before any bad digit. -/
def decodeOctets (octets : Bytes) : Except HexError Bytes :=
  if octets.length % 2 = 1 then .error .oddLength else decodePairs 0 octets

/-- Reads a hexadecimal text. -/
def decode (text : String) : Except HexError Bytes := decodeOctets (Bytes.ofString text)

end Hex

end Keyless
