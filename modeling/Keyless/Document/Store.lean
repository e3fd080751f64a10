/-
The JSON forms of publications files and calendar archives.
-/
import Keyless.Document.Chain
import Keyless.Document.Publication
import Keyless.Extension.Script
import Keyless.Json.Text
import Keyless.Publication.Store

namespace Keyless

/-- A certificate as a publications file holds it. -/
structure CertificateEntry where
  id : Bytes
  /-- The public key in PEM form. -/
  publicKey : String
  notBefore : Time
  notAfter : Time

namespace CertificateEntry

/-- The fields of a certificate entry. -/
def record : Record CertificateEntry :=
  CertificateEntry.mk <$> .required "id" Json.toOctets
    <*> .required "public_key" Json.toText
    <*> .required "not_before" Json.toTime
    <*> .required "not_after" Json.toTime

/-- The certificate that an entry describes. -/
def certificate (entry : CertificateEntry) : Except CertificateFault EcdsaCertificate :=
  EcdsaCertificate.ofPem entry.id entry.publicKey entry.notBefore entry.notAfter

end CertificateEntry

/-- A publications file. -/
structure PublicationsDocument where
  publications : List PublicationRecord
  certificates : List CertificateEntry

namespace PublicationsDocument

/-- The fields of a publications file; both may be missing. -/
def record : Record PublicationsDocument :=
  PublicationsDocument.mk
    <$> .defaulted "publications" (Json.toList PublicationRecord.ofJson) []
    <*> .defaulted "certificates" (Json.toList CertificateEntry.record.decode) []

/-- Reads a publications file. -/
def ofJson : Json → Except DecodeError PublicationsDocument := record.decode

/-- The store that the file describes; the first certificate at fault decides. -/
def store (document : PublicationsDocument) : Except VerificationError PublicationStore :=
  match document.certificates.mapM CertificateEntry.certificate with
  | .ok certificates => .ok (.ofRecords document.publications certificates)
  | .error fault => .error (.invalidCertificate fault)

end PublicationsDocument

/-- Reads the text of a publications file. -/
def PublicationStore.ofText (text : String) : Except VerificationError PublicationStore :=
  match Json.readAs PublicationsDocument.ofJson text with
  | .ok document => document.store
  | .error fault => .error (.document fault)

namespace Archive

/-- The fields of a calendar archive. -/
def record : Record (List CalendarChain) :=
  .required "chains" (Json.toList CalendarChain.ofJson)

/-- Reads the text of a calendar archive, which answers without delay. -/
def ofText (text : String) : Except VerificationError Archive :=
  match Json.readAs record.decode text with
  | .ok chains => .ok { chains, delay := 0 }
  | .error fault => .error (.document fault)

end Archive

end Keyless
