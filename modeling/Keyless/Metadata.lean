/-
Identity metadata: who asked for a leaf of the aggregation tree.

Metadata takes the place of a sibling hash, so it must never be mistaken for an
imprint.  The padding sees to that: imprints have an odd number of octets, and
padded content an even one.
-/
import Keyless.Element

namespace Keyless

/-- The identity of a client, as an aggregation chain records it. -/
structure Metadata where
  clientId : String
  machineId : Option String
  sequenceNumber : Option UInt64
  requestTime : Option UInt64
  /-- How many octets of padding come first, if there is padding. -/
  padding : Option UInt8
deriving DecidableEq

namespace Metadata

/-- Tags of the elements. -/
def tag : UInt16 := 0x04
def paddingTag : UInt16 := 0x1E
def clientIdTag : UInt16 := 0x01
def machineIdTag : UInt16 := 0x02
def sequenceNumberTag : UInt16 := 0x03
def requestTimeTag : UInt16 := 0x04

/-- The value of every octet of padding. -/
def paddingOctet : UInt8 := 0x01

/-- Metadata with nothing but a client. -/
def ofClient (clientId : String) : Metadata :=
  { clientId, machineId := none, sequenceNumber := none, requestTime := none, padding := none }

/-- A text element: UTF-8 octets and a zero. -/
def textElement (tag : UInt16) (text : String) : Element :=
  { flags := 0, tag, value := Bytes.ofString text ++ [0] }

/-- A number element, in as few octets as the number needs. -/
def numberElement (tag : UInt16) (value : UInt64) : Element :=
  { flags := 0, tag, value := Bytes.minimal value }

/-- The elements that carry the identity, in their order. -/
def identityElements (m : Metadata) : List Element :=
  textElement clientIdTag m.clientId ::
    ((m.machineId.map (textElement machineIdTag)).toList ++
      (m.sequenceNumber.map (numberElement sequenceNumberTag)).toList ++
      (m.requestTime.map (numberElement requestTimeTag)).toList)

/-- The padding, which a reader without knowledge of it may skip. -/
def paddingElement (length : UInt8) : Element :=
  { flags := Element.nonCritical ||| Element.forward, tag := paddingTag
    value := List.replicate length.toNat paddingOctet }

/-- All elements: the padding first, then the identity. -/
def elements (m : Metadata) : List Element :=
  (m.padding.map paddingElement).toList ++ m.identityElements

/-- The octets of elements one after another; the first refused one decides. -/
def joined : List Element → Except ChainError Bytes
  | [] => .ok []
  | e :: rest => do
    let first ← e.octets
    let others ← joined rest
    return first ++ others

/-- What the metadata brings to a step of a chain. -/
def content (m : Metadata) : Except ChainError Bytes := joined m.elements

/-- The content under a header of its own. -/
def octets (m : Metadata) : Except ChainError Bytes := do
  let value ← m.content
  Element.octets { flags := 0, tag, value }

/--
The padding length that makes the content even.  A padding element has a header
of two octets, so the length has the parity of the identity; it is one for
metadata that has no encoding.
-/
def paddingLength (m : Metadata) : UInt8 :=
  match joined m.identityElements with
  | .ok identity => if identity.length % 2 = 0 then 2 else 1
  | .error _ => 1

/-- The metadata with the padding that it needs. -/
def withPadding (m : Metadata) : Metadata := { m with padding := some m.paddingLength }

/-- The metadata without padding. -/
def withoutPadding (m : Metadata) : Metadata := { m with padding := none }

end Metadata

end Keyless
