/-
What can go wrong when chains are decoded, folded, composed and extended.

An error is a cause with the values that it concerns.  The one place that words
causes is `message`, here and for the parts of an error.
-/
import Keyless.Imprint
import Keyless.Time.Gregorian

namespace Keyless

/-- Why an extension service did not deliver a calendar chain. -/
inductive ProtocolError where
  /-- The service has nothing for the request. -/
  | notFound (aggregationTime : Time) (publicationTime : Option Time)
  /-- The service could not be reached or refused. -/
  | unavailable (reason : String)
  /-- The answer is no usable chain. -/
  | malformed (reason : String)
deriving DecidableEq

/-- Why octets or text are no imprint, beside the algorithm and the digest's length. -/
inductive ImprintFault where
  | empty
  | notHexadecimal (fault : HexError)
  | unknownName (name : String)
deriving DecidableEq

/-- Where the arithmetic of a chain leaves its range. -/
inductive ComputationFault where
  /-- The level after the link at `position` is above the highest level. -/
  | levelExceeded (position : Nat)
  | noChains
  | indexTooLong (links : Nat)
  | publicationBeforeEpoch
  | calendarTooLong
  | calendarTooShort
  | registrationOutOfRange
  | correctionOverflow (level : UInt64)
deriving DecidableEq

/-- Why a value has no canonical encoding. -/
inductive EncodingFault where
  | valueTooLong (tag : UInt16) (length : Nat)
  | publicationBeforeEpoch (time : Time)
deriving DecidableEq

/-- Why parts do not make a signature. -/
inductive SignatureFault where
  | noChains
  | chainWithoutLinks
  | recordWithoutCalendar
  | bothRecords
  | emptyType
  | emptyValue
  | emptyCertificateId
deriving DecidableEq

/-- Why a chain cannot become the lowest one of a signature. -/
inductive PrependFault where
  | noLinks
  | levelTooHigh (level correction : UInt64)
  | outputMismatch (output expected : Imprint)
deriving DecidableEq

/-- What can go wrong with chains. -/
inductive ChainError where
  | unknownAlgorithm (id : UInt8)
  | notImplemented (algorithm : HashAlgorithm)
  | digestLength (algorithm : HashAlgorithm) (actual : Nat)
  | invalidImprint (fault : ImprintFault)
  | computation (fault : ComputationFault)
  | encoding (fault : EncodingFault)
  | invalidSignature (fault : SignatureFault)
  | prependRejected (fault : PrependFault)
  /-- An extended calendar chain does not keep the signature's right links. -/
  | inconsistentCalendarChain
  | publicationBeforeSignature (publicationTime aggregationTime : Time)
  | extension (cause : ProtocolError)
deriving DecidableEq

/-- The wording of a protocol error. -/
def ProtocolError.message : ProtocolError → String
  | .notFound aggregation publication =>
    "no calendar hash chain from " ++ aggregation.text ++ " to " ++ Time.optionalStamp publication
  | .unavailable reason => "extension service unavailable: " ++ reason
  | .malformed reason => "malformed extension response: " ++ reason

/-- The wording of an imprint fault. -/
def ImprintFault.message : ImprintFault → String
  | .empty => "empty imprint"
  | .notHexadecimal fault => "invalid hex imprint: " ++ fault.message
  | .unknownName name => "unknown hash algorithm name `" ++ name ++ "`"

/-- The wording of a computation fault. -/
def ComputationFault.message : ComputationFault → String
  | .levelExceeded position =>
    "aggregation chain level exceeds 255 at link " ++ toString position
  | .noChains => "no aggregation hash chains to fold"
  | .indexTooLong links =>
    "chain of " ++ toString links ++ " links does not fit a 64-bit index"
  | .publicationBeforeEpoch => "publication time precedes the epoch"
  | .calendarTooLong => "calendar chain is longer than its publication time allows"
  | .calendarTooShort => "calendar chain is shorter than its publication time requires"
  | .registrationOutOfRange => "registration time out of range"
  | .correctionOverflow level =>
    "level correction overflows adding " ++ toString level.toNat

/-- The wording of an encoding fault. -/
def EncodingFault.message : EncodingFault → String
  | .valueTooLong tag length =>
    let digits := Nat.toDigits 16 tag.toNat
    let padding := List.replicate (2 - digits.length) '0'
    "element 0x" ++ String.ofList (padding ++ digits) ++ " value of " ++ toString length ++
      " bytes exceeds 65535"
  | .publicationBeforeEpoch time => "publication time " ++ time.text ++ " precedes the epoch"

/-- The wording of a signature fault. -/
def SignatureFault.message : SignatureFault → String
  | .noChains => "at least one aggregation hash chain is required"
  | .chainWithoutLinks => "aggregation hash chain has no links"
  | .recordWithoutCalendar => "calendar record present without a calendar hash chain"
  | .bothRecords =>
    "signature cannot carry both an authentication record and a publication record"
  | .emptyType => "signature type must not be empty"
  | .emptyValue => "signature value must not be empty"
  | .emptyCertificateId => "certificate id must not be empty"

/-- The wording of a prepend fault. -/
def PrependFault.message : PrependFault → String
  | .noLinks => "it has no links"
  | .levelTooHigh level correction =>
    "its output level (" ++ toString level.toNat ++ ") is bigger than level correction of the " ++
      "first link of the first aggregation hash chain of the base signature (" ++
      toString correction.toNat ++ ")"
  | .outputMismatch output expected =>
    "its output hash (" ++ output.text ++ ") does not match base signature input hash (" ++
      expected.text ++ ")"

/-- The wording of an error. -/
def ChainError.message : ChainError → String
  | .unknownAlgorithm id => "unknown hash algorithm id 0x" ++ Hex.encode [id]
  | .notImplemented algorithm => "hash algorithm " ++ algorithm.name ++ " is not implemented"
  | .digestLength algorithm actual =>
    algorithm.name ++ " digest must be " ++ toString algorithm.digestLength ++ " bytes, got " ++
      toString actual
  | .invalidImprint fault => "invalid imprint: " ++ fault.message
  | .computation fault => "hash chain computation failed: " ++ fault.message
  | .encoding fault => "canonical encoding failed: " ++ fault.message
  | .invalidSignature fault => "invalid signature: " ++ fault.message
  | .prependRejected fault =>
    "aggregation hash chain cannot be added as lowest level chain: " ++ fault.message
  | .inconsistentCalendarChain =>
    "right links of signature calendar hash chain and extended calendar hash chain do not match"
  | .publicationBeforeSignature publication aggregation =>
    "publication at " ++ publication.text ++ " is before signature aggregated at " ++
      aggregation.text
  | .extension cause => "extension failed: " ++ cause.message

end Keyless
