/-
The rules that policies are made of, and what they report.
-/
import Keyless.Verification.ErrorCode

namespace Keyless

/-- One consistency check. -/
inductive Rule where
  /- The document that the caller has. -/
  | documentHashAlgorithm
  | documentHash
  | inputHashLevel
  /- Aggregation chains and the legacy record. -/
  | inputHashAlgorithmDeprecated
  | timestampInternalAlgorithmsDeprecated
  | timestampOutputAlgorithmDeprecated
  | aggregationChainInputHash
  | timestampRecordIndex
  | timestampRecordTime
  | aggregationChainIndexSuccessor
  | aggregationChainMetadata
  | aggregationAlgorithmDeprecated
  | aggregationChainConsistency
  | aggregationChainTime
  | aggregationChainIndex
  /- The calendar chain and its records. -/
  | calendarInputHash
  | calendarAggregationTime
  | calendarRegistrationTime
  | calendarAlgorithmObsolete
  | publicationRecordTime
  | publicationRecordHash
  | authenticationRecordTime
  | authenticationRecordHash
  /- Presence of trust anchors. -/
  | calendarChainExists
  | authenticationRecordExists
  | publicationRecordExists
  | extendingPermitted
  /- Certificates. -/
  | certificateExists
  | certificateValidity
  | authenticationRecordSignature
  /- Publications that the lookup holds. -/
  | lookupContainsSignaturePublication
  | lookupSignaturePublicationHash
  | lookupContainsNewerPublication
  | extendedToLookupRootHash
  | extendedToLookupTime
  | extendedToLookupInputHash
  /- The publication that the user supplied. -/
  | userPublicationExists
  | userPublicationTimeMatches
  | userPublicationHash
  | userPublicationNewer
  | extendedToUserRootHash
  | extendedToUserTime
  | extendedToUserInputHash
  /- The calendar database. -/
  | calendarExtendedRootHash
  | calendarExtendedInputHash
  | calendarExtendedAggregationTime
deriving DecidableEq, Repr

namespace Rule

/-- Every rule. -/
def all : List Rule := [
  documentHashAlgorithm, documentHash, inputHashLevel,
  inputHashAlgorithmDeprecated, timestampInternalAlgorithmsDeprecated,
  timestampOutputAlgorithmDeprecated, aggregationChainInputHash, timestampRecordIndex,
  timestampRecordTime, aggregationChainIndexSuccessor, aggregationChainMetadata,
  aggregationAlgorithmDeprecated, aggregationChainConsistency, aggregationChainTime,
  aggregationChainIndex,
  calendarInputHash, calendarAggregationTime, calendarRegistrationTime, calendarAlgorithmObsolete,
  publicationRecordTime, publicationRecordHash, authenticationRecordTime,
  authenticationRecordHash,
  calendarChainExists, authenticationRecordExists, publicationRecordExists, extendingPermitted,
  certificateExists, certificateValidity, authenticationRecordSignature,
  lookupContainsSignaturePublication, lookupSignaturePublicationHash,
  lookupContainsNewerPublication, extendedToLookupRootHash, extendedToLookupTime,
  extendedToLookupInputHash,
  userPublicationExists, userPublicationTimeMatches, userPublicationHash, userPublicationNewer,
  extendedToUserRootHash, extendedToUserTime, extendedToUserInputHash,
  calendarExtendedRootHash, calendarExtendedInputHash, calendarExtendedAggregationTime]

/-- The name in reports. -/
def name : Rule → String
  | documentHashAlgorithm => "DocumentHashAlgorithm"
  | documentHash => "DocumentHash"
  | inputHashLevel => "InputHashLevel"
  | inputHashAlgorithmDeprecated => "InputHashAlgorithmDeprecated"
  | timestampInternalAlgorithmsDeprecated => "Rfc3161InternalAlgorithmsDeprecated"
  | timestampOutputAlgorithmDeprecated => "Rfc3161OutputAlgorithmDeprecated"
  | aggregationChainInputHash => "AggregationChainInputHash"
  | timestampRecordIndex => "Rfc3161RecordIndex"
  | timestampRecordTime => "Rfc3161RecordTime"
  | aggregationChainIndexSuccessor => "AggregationChainIndexSuccessor"
  | aggregationChainMetadata => "AggregationChainMetadata"
  | aggregationAlgorithmDeprecated => "AggregationAlgorithmDeprecated"
  | aggregationChainConsistency => "AggregationChainConsistency"
  | aggregationChainTime => "AggregationChainTime"
  | aggregationChainIndex => "AggregationChainIndex"
  | calendarInputHash => "CalendarInputHash"
  | calendarAggregationTime => "CalendarAggregationTime"
  | calendarRegistrationTime => "CalendarRegistrationTime"
  | calendarAlgorithmObsolete => "CalendarAlgorithmObsolete"
  | publicationRecordTime => "PublicationRecordTime"
  | publicationRecordHash => "PublicationRecordHash"
  | authenticationRecordTime => "AuthenticationRecordTime"
  | authenticationRecordHash => "AuthenticationRecordHash"
  | calendarChainExists => "CalendarChainExists"
  | authenticationRecordExists => "AuthenticationRecordExists"
  | publicationRecordExists => "PublicationRecordExists"
  | extendingPermitted => "ExtendingPermitted"
  | certificateExists => "CertificateExists"
  | certificateValidity => "CertificateValidity"
  | authenticationRecordSignature => "AuthenticationRecordSignature"
  | lookupContainsSignaturePublication => "LookupContainsSignaturePublication"
  | lookupSignaturePublicationHash => "LookupSignaturePublicationHash"
  | lookupContainsNewerPublication => "LookupContainsNewerPublication"
  | extendedToLookupRootHash => "ExtendedToLookupRootHash"
  | extendedToLookupTime => "ExtendedToLookupTime"
  | extendedToLookupInputHash => "ExtendedToLookupInputHash"
  | userPublicationExists => "UserPublicationExists"
  | userPublicationTimeMatches => "UserPublicationTimeMatches"
  | userPublicationHash => "UserPublicationHash"
  | userPublicationNewer => "UserPublicationNewer"
  | extendedToUserRootHash => "ExtendedToUserRootHash"
  | extendedToUserTime => "ExtendedToUserTime"
  | extendedToUserInputHash => "ExtendedToUserInputHash"
  | calendarExtendedRootHash => "CalendarExtendedRootHash"
  | calendarExtendedInputHash => "CalendarExtendedInputHash"
  | calendarExtendedAggregationTime => "CalendarExtendedAggregationTime"

/-- The rule with a name. -/
def ofName? (name : String) : Option Rule := all.find? (·.name = name)

/-- The code when the rule fails.  Rules that never fail have the inconclusive code. -/
def errorCode : Rule → ErrorCode
  | documentHash => .wrongDocument
  | inputHashLevel => .inputLevelTooLarge
  | documentHashAlgorithm => .wrongInputAlgorithm
  | aggregationChainInputHash | aggregationChainConsistency => .inconsistentChains
  | timestampRecordTime | aggregationChainTime => .inconsistentAggregationTimes
  | calendarInputHash => .calendarInputMismatch
  | calendarAggregationTime => .calendarAggregationTimeMismatch
  | calendarRegistrationTime => .calendarShapeMismatch
  | authenticationRecordTime => .authenticationTimeMismatch
  | publicationRecordTime => .publicationTimeMismatch
  | authenticationRecordHash => .authenticationHashMismatch
  | publicationRecordHash => .publicationHashMismatch
  | aggregationChainIndex => .chainIndexMismatch
  | aggregationChainMetadata => .untrustedMetadata
  | timestampRecordIndex | aggregationChainIndexSuccessor => .inconsistentChainIndexes
  | inputHashAlgorithmDeprecated => .inputAlgorithmDeprecated
  | timestampInternalAlgorithmsDeprecated => .timestampAlgorithmsDeprecated
  | aggregationAlgorithmDeprecated => .aggregationAlgorithmDeprecated
  | calendarAlgorithmObsolete => .calendarAlgorithmObsolete
  | timestampOutputAlgorithmDeprecated => .timestampOutputAlgorithmDeprecated
  | extendedToLookupRootHash | extendedToUserRootHash => .extendedRootMismatch
  | extendedToLookupTime | extendedToUserTime => .extendedTimeMismatch
  | extendedToLookupInputHash | extendedToUserInputHash => .extendedInputMismatch
  | userPublicationHash => .userPublicationMismatch
  | lookupSignaturePublicationHash => .trustedPublicationMismatch
  | certificateExists => .certificateNotFound
  | authenticationRecordSignature => .signatureNotVerified
  | certificateValidity => .certificateNotValid
  | calendarExtendedRootHash => .databaseRootMismatch
  | calendarExtendedInputHash => .databaseInputMismatch
  | calendarExtendedAggregationTime => .databaseAggregationTimeMismatch
  | calendarChainExists | authenticationRecordExists | publicationRecordExists
  | extendingPermitted | lookupContainsSignaturePublication | lookupContainsNewerPublication
  | userPublicationExists | userPublicationTimeMatches | userPublicationNewer => .inconclusive

end Rule

/-- What a rule decides. -/
inductive Verdict where
  | ok
  | fail
  /-- What the rule checks is not there. -/
  | notApplicable
  /-- A trust anchor is missing or out of reach. -/
  | anchorUnavailable
deriving DecidableEq, Repr

namespace Verdict

/-- Passed or failed. -/
def ofCheck (passed : Bool) : Verdict := if passed then .ok else .fail

/-- Whether an anchor is there. -/
def ofPresence (present : Bool) : Verdict := if present then .ok else .anchorUnavailable

/-- The status in reports, which has one word for everything undecided. -/
def status : Verdict → String
  | .ok => "OK"
  | .fail => "FAIL"
  | .notApplicable | .anchorUnavailable => "NA"

end Verdict

/-- A rule with its verdict. -/
structure RuleResult where
  rule : Rule
  verdict : Verdict
deriving DecidableEq, Repr

namespace RuleResult

/-- The rule's own code on failure, the inconclusive code if undecided, none otherwise. -/
def code (r : RuleResult) : Option ErrorCode :=
  match r.verdict with
  | .ok => none
  | .fail => some r.rule.errorCode
  | .notApplicable | .anchorUnavailable => some .inconclusive

/-- Whether the rule failed. -/
def isFail (r : RuleResult) : Bool := r.verdict = .fail

/-- Whether the result leaves its policy undecided. -/
def isInconclusive (r : RuleResult) : Bool := r.verdict = .anchorUnavailable

end RuleResult

end Keyless
