/-
What a verification is about, and what it may use.
-/
import Keyless.Extension.Extender
import Keyless.Json.Record
import Keyless.Signature

namespace Keyless

/-- The time allowed for one extension request, if nothing else is said. -/
def defaultTimeout : Duration := Duration.ofSeconds 10

/-- A signature under test, the caller's expectations of it, and the means to check it. -/
structure Context where
  signature : Signature
  /-- The hash of the document that the signature should cover. -/
  documentHash : Option Imprint
  /-- How many levels above the leaves the document sits. -/
  inputLevel : UInt64
  /-- A publication that the user trusts. -/
  userPublication : Option PublicationData
  extendingAllowed : Bool
  extender : Option Extender
  publications : Option PublicationsLookup
  timeout : Duration

namespace Context

/-- A context with nothing but a signature. -/
def ofSignature (signature : Signature) : Context :=
  { signature, documentHash := none, inputLevel := 0, userPublication := none
    extendingAllowed := false, extender := none, publications := none, timeout := defaultTimeout }

/-- Whether there is a service and it may be asked. -/
def canExtend (ctx : Context) : Bool := ctx.extendingAllowed && ctx.extender.isSome

end Context

/-- Why no extended chain could be had.  The rule that asked is then undecided. -/
inductive ExtensionFailure where
  | notConfigured
  | notAllowed
  | timedOut (after : Duration)
  | protocol (cause : ProtocolError)
deriving DecidableEq

/-- The wording of an extension failure. -/
def ExtensionFailure.message : ExtensionFailure → String
  | .notConfigured => "no extender configured"
  | .notAllowed => "extending is not allowed"
  | .timedOut after => "extension request timed out after " ++ after.text
  | .protocol cause => cause.message

/-- Why a certificate could not be read. -/
inductive CertificateFault where
  | invalidPem
  | tooShort
  | invertedWindow
deriving DecidableEq

/-- The wording of a certificate fault. -/
def CertificateFault.message : CertificateFault → String
  | .invalidPem => "invalid PEM public key"
  | .tooShort => "public key DER too short for SPKI"
  | .invertedWindow => "validity window ends before it starts"

/-- What ends a verification without a verdict. -/
inductive VerificationError where
  | chain (cause : ChainError)
  /-- An extended chain does not keep the signature's own right links. -/
  | inconsistentCalendarChain (aggregationTime : Time) (publicationTime : Option Time)
  | cancelled
  | invalidCertificate (fault : CertificateFault)
  /-- A file could not be read. -/
  | io (reason : String)
  | document (fault : DecodeError)
deriving DecidableEq

/-- The wording of a verification error. -/
def VerificationError.message : VerificationError → String
  | .chain cause => "hash chain error: " ++ cause.message
  | .inconsistentCalendarChain aggregation publication =>
    "right links of signature calendar hash chain and extended calendar hash chain do not match " ++
      "(aggregation time " ++ aggregation.text ++ ", publication time " ++
      Time.optionalStamp publication ++ ")"
  | .cancelled => "verification cancelled"
  | .invalidCertificate fault => "invalid certificate: " ++ fault.message
  | .io reason => "verification I/O error: " ++ reason
  | .document fault => "JSON error: " ++ fault.message

end Keyless
