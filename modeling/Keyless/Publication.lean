/-
Published calendar roots, calendar roots under a signature, and where a verifier looks
publications and certificates up.
-/
import Keyless.Element

namespace Keyless

/-- A calendar root and its time. -/
structure PublicationData where
  publicationTime : Time
  publishedHash : Imprint
deriving DecidableEq

/-- A publication and where it can be found. -/
structure PublicationRecord where
  publicationData : PublicationData
  /-- Printed publications. -/
  references : List String
  repositoryUris : List String
deriving DecidableEq

/-- A signature made with a certificate's key. -/
structure SignatureData where
  /-- The signature algorithm, an object identifier. -/
  signatureType : String
  signatureValue : Bytes
  certificateId : Bytes
  certificateRepositoryUri : Option String
deriving DecidableEq

/-- A calendar root under a certificate's signature instead of a publication. -/
structure AuthenticationRecord where
  publicationData : PublicationData
  /-- The signature over the canonical encoding of the publication data. -/
  signatureData : SignatureData
deriving DecidableEq

namespace PublicationData

/-- Tags of the elements. -/
def tag : UInt16 := 0x10
def timeTag : UInt16 := 0x02
def hashTag : UInt16 := 0x04

/-- The canonical encoding, which signatures cover.  Times before 1970 have none. -/
def octets (data : PublicationData) : Except ChainError Bytes :=
  if data.publicationTime.seconds < 0 then
    .error (.encoding (.publicationBeforeEpoch data.publicationTime))
  else do
    let seconds := UInt64.ofNat data.publicationTime.seconds.toNat
    let time ← Element.octets { flags := 0, tag := timeTag, value := Bytes.minimal seconds }
    let hash ← Element.octets { flags := 0, tag := hashTag, value := data.publishedHash.octets }
    Element.octets { flags := 0, tag, value := time ++ hash }

end PublicationData

/-- Signature data without a repository; type, value and certificate must not be empty. -/
def SignatureData.ofParts (signatureType : String) (signatureValue certificateId : Bytes) :
    Except ChainError SignatureData :=
  if signatureType = "" then .error (.invalidSignature .emptyType)
  else if signatureValue = [] then .error (.invalidSignature .emptyValue)
  else if certificateId = [] then .error (.invalidSignature .emptyCertificateId)
  else .ok { signatureType, signatureValue, certificateId, certificateRepositoryUri := none }

/-- A certificate, as far as a verifier asks it. -/
structure Certificate where
  /-- Whether a time is inside the certificate's validity. -/
  isValidAt : Time → Bool
  /-- Whether a signature of some type over a message was made with the certificate's key. -/
  accepts : (signatureType : String) → (message signature : Bytes) → Bool

/-- A source of trusted publications and certificates. -/
structure PublicationsLookup where
  /-- The publication made exactly at a time. -/
  publicationAt : Time → Option PublicationRecord
  /-- The earliest publication made at a time or later. -/
  publicationFrom : Time → Option PublicationRecord
  /-- The certificate with an id. -/
  certificate : Bytes → Option Certificate

end Keyless
