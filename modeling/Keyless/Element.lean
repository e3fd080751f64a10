/-
Tagged elements, the units of the canonical encodings.

An element is a header followed by its value.  The short header is one octet of
flags and tag and one octet of length; it serves tags up to 0x1F and values up
to 255 octets.  Everything else has the long header: two octets of form bit,
flags and tag, and two of length.  A value above 65535 octets has no encoding.
-/
import Keyless.ChainError

namespace Keyless

/-- A value with its tag and flags. -/
structure Element where
  flags : UInt8
  tag : UInt16
  value : Bytes
deriving DecidableEq

namespace Element

/-- A reader that does not know the element may skip it. -/
def nonCritical : UInt8 := 0x40

/-- A reader that does not know the element passes it on. -/
def forward : UInt8 := 0x20

/-- The bit that tells the long header from the short one. -/
def longForm : UInt8 := 0x80

/-- Whether the short header serves. -/
def isShort (e : Element) : Bool := e.tag ≤ 0x1F && e.value.length ≤ 255

/-- The octets of an element that the short header serves. -/
def shortOctets (e : Element) : Bytes :=
  (e.flags ||| e.tag.toUInt8) :: UInt8.ofNat e.value.length :: e.value

/-- The octets of an element under the long header, which holds 13 bits of tag. -/
def longOctets (e : Element) : Bytes :=
  let tag := (e.tag &&& 0x1FFF).toNat
  (longForm ||| e.flags ||| UInt8.ofNat (tag / 256)) :: UInt8.ofNat tag ::
    (Bytes.bigEndian 2 e.value.length ++ e.value)

/-- The header and the value. -/
def octets (e : Element) : Except ChainError Bytes :=
  if e.isShort then .ok e.shortOctets
  else if e.value.length ≤ 65535 then .ok e.longOctets
  else .error (.encoding (.valueTooLong e.tag e.value.length))

/-- Writes the element behind `out`.  A refused element leaves `out` as it is. -/
def appendTo (out : Bytes) (e : Element) : Bytes × Option ChainError :=
  match e.octets with
  | .ok octets => (out ++ octets, none)
  | .error refusal => (out, some refusal)

end Element

end Keyless
