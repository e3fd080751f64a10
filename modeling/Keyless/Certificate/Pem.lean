/-
PEM texts, and the public keys in them.

The body of a PEM text is what stands on the lines between the first BEGIN
marker and the first END marker, without the blanks around each line.
-/
import Keyless.Text
import Keyless.Text.Base64

namespace Keyless.Pem

/-- How the marker lines begin. -/
def beginMarker : List Char := "-----BEGIN ".toList
def endMarker : List Char := "-----END ".toList

/-- The characters of the body on trimmed lines; `inside` once a BEGIN marker has come. -/
def body (inside : Bool) : List (List Char) → List Char
  | [] => []
  | line :: rest =>
    if beginMarker.isPrefixOf line then body true rest
    else if endMarker.isPrefixOf line then []
    else if inside then line ++ body inside rest
    else body inside rest

/-- The octets in the body of a PEM text. -/
def decode (text : String) : Option Bytes :=
  Base64.decode (body false ((Text.lines text.toList).map Text.trim))

/--
The header before a public key in a subject public key info: an elliptic curve
key on P-256, as a bit string of 65 octets.
-/
def publicKeyHeader : Bytes := [
  0x30, 0x59, 0x30, 0x13, 0x06, 0x07, 0x2a, 0x86, 0x48, 0xce, 0x3d, 0x02, 0x01, 0x06, 0x08,
  0x2a, 0x86, 0x48, 0xce, 0x3d, 0x03, 0x01, 0x07, 0x03, 0x42, 0x00]

/-- The subject public key info of a public key. -/
def publicKeyInfo (key : Bytes) : Bytes := publicKeyHeader ++ key

end Keyless.Pem
