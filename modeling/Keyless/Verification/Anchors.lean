/-
Rules about trust anchors: whether they are there, and whether they agree with
the signature's own records.
-/
import Keyless.Verification.Context
import Keyless.Verification.Rule

namespace Keyless

/-- Where the publication comes from to which a signature is extended. -/
inductive ExtensionTarget where
  /-- The earliest trusted publication from the aggregation time on. -/
  | lookup
  /-- The user's publication. -/
  | user
deriving DecidableEq, Repr

namespace Context

/-- The publication to extend to. -/
def target? (ctx : Context) : ExtensionTarget → Option PublicationData
  | .lookup =>
    (ctx.publications.bind (·.publicationFrom ctx.signature.aggregationTime)).map
      PublicationRecord.publicationData
  | .user => ctx.userPublication

/-! ### Publications -/

/-- The trusted publication at the time of the signature's own. -/
def trustedPublication? (ctx : Context) : Option PublicationRecord :=
  match ctx.publications, ctx.signature.publicationRecord with
  | some lookup, some record => lookup.publicationAt record.publicationData.publicationTime
  | _, _ => none

/-- The trusted publication has the hash of the signature's own. -/
def trustedHashVerdict (ctx : Context) : Verdict :=
  match ctx.trustedPublication?, ctx.signature.publicationRecord with
  | some trusted, some record =>
    .ofCheck (trusted.publicationData.publishedHash = record.publicationData.publishedHash)
  | _, _ => .anchorUnavailable

/-- The user's publication, if it is of the same time as the signature's own, with that one. -/
def comparablePublications? (ctx : Context) : Option (PublicationData × PublicationData) :=
  match ctx.userPublication, ctx.signature.publicationRecord with
  | some user, some record =>
    if user.publicationTime = record.publicationData.publicationTime then
      some (user, record.publicationData)
    else none
  | _, _ => none

/-- The user's publication has the hash of the signature's own. -/
def userHashVerdict (ctx : Context) : Verdict :=
  match ctx.comparablePublications? with
  | some (user, own) => .ofCheck (user.publishedHash = own.publishedHash)
  | none => .anchorUnavailable

/-- The user's publication was made after the signature. -/
def userNewerVerdict (ctx : Context) : Verdict :=
  .ofPresence (ctx.userPublication.any fun user =>
    ctx.signature.aggregationTime < user.publicationTime)

/-! ### Certificates -/

/-- An authentication record and the certificate it names, or the verdict without them. -/
inductive Credentials where
  | found (record : AuthenticationRecord) (certificate : Certificate)
  | noRecord
  | noLookup
  | unknownCertificate

/-- The signature's authentication record and its certificate. -/
def credentials (ctx : Context) : Credentials :=
  match ctx.signature.authenticationRecord with
  | none => .noRecord
  | some record =>
    match ctx.publications with
    | none => .noLookup
    | some lookup =>
      match lookup.certificate record.signatureData.certificateId with
      | none => .unknownCertificate
      | some certificate => .found record certificate

/-- A verdict on the credentials; `unknown` is the one on a certificate that is not found. -/
def credentialsVerdict (ctx : Context) (unknown : Verdict)
    (check : AuthenticationRecord → Certificate → Bool) : Verdict :=
  match ctx.credentials with
  | .found record certificate => .ofCheck (check record certificate)
  | .noRecord => .notApplicable
  | .noLookup => .anchorUnavailable
  | .unknownCertificate => unknown

/-- The certificate is found. -/
def certificateVerdict (ctx : Context) : Verdict :=
  ctx.credentialsVerdict .fail fun _ _ => true

/-- The certificate was valid when the document was signed. -/
def certificateValidityVerdict (ctx : Context) : Verdict :=
  ctx.credentialsVerdict .notApplicable fun _ certificate =>
    certificate.isValidAt ctx.signature.aggregationTime

/-- The certificate accepts the record's signature over the encoded publication data. -/
def recordSignatureVerdict (ctx : Context) : Verdict :=
  ctx.credentialsVerdict .notApplicable fun record certificate =>
    match record.publicationData.octets with
    | .ok signed =>
      certificate.accepts record.signatureData.signatureType signed
        record.signatureData.signatureValue
    | .error _ => false

end Context

end Keyless
