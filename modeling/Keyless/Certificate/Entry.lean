/-
ECDSA certificates: a public key, an id, and a validity.
-/
import Keyless.Certificate.Ecdsa
import Keyless.Certificate.Pem
import Keyless.Verification.Context

namespace Keyless

/-- A certificate for a P-256 key.  The key's octets are not checked before they are used. -/
structure EcdsaCertificate where
  id : Bytes
  /-- The octets of the public point. -/
  key : Bytes
  notBefore : Time
  notAfter : Time
deriving DecidableEq

namespace EcdsaCertificate

/-- The object identifier of ECDSA with SHA-256. -/
def signatureType : String := "1.2.840.10045.4.3.2"

/-- A certificate with a public key in PEM form, of which only the end is looked at. -/
def ofPem (id : Bytes) (pem : String) (notBefore notAfter : Time) :
    Except CertificateFault EcdsaCertificate :=
  match Pem.decode pem with
  | none => .error .invalidPem
  | some info =>
    if info.length ≤ Pem.publicKeyHeader.length then .error .tooShort
    else if notAfter < notBefore then .error .invertedWindow
    else .ok { id, key := info.drop Pem.publicKeyHeader.length, notBefore, notAfter }

/-- Whether a time is inside the validity, both ends included. -/
def isValidAt (c : EcdsaCertificate) (time : Time) : Bool :=
  c.notBefore ≤ time && time ≤ c.notAfter

/-- Whether the key accepts a signature; only one type of signature is known. -/
def accepts (c : EcdsaCertificate) (type : String) (message signature : Bytes) : Bool :=
  type = signatureType && Ecdsa.accepts c.key message signature

/-- What a verifier sees of the certificate. -/
def toCertificate (c : EcdsaCertificate) : Certificate :=
  { isValidAt := c.isValidAt, accepts := c.accepts }

/-- The certificate without its key, in one line. -/
def text (c : EcdsaCertificate) : String :=
  "EcdsaCertificate \x7b id: \"" ++ Hex.encode c.id ++ "\", not_before: " ++ c.notBefore.stamp ++
    ", not_after: " ++ c.notAfter.stamp ++ ", .. \x7d"

end EcdsaCertificate

end Keyless
