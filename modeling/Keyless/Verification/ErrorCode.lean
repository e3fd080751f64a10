/-
The codes that verdicts carry.

There are five families: the document (GEN), internal consistency (INT),
publications (PUB), certificates (KEY) and the calendar database (CAL).
-/

namespace Keyless

/-- What a rule found wrong, or that nothing could be decided. -/
inductive ErrorCode where
  | wrongDocument
  | inconclusive
  | inputLevelTooLarge
  | wrongInputAlgorithm
  | inconsistentChains
  | inconsistentAggregationTimes
  | calendarInputMismatch
  | calendarAggregationTimeMismatch
  | calendarShapeMismatch
  | authenticationTimeMismatch
  | publicationTimeMismatch
  | authenticationHashMismatch
  | publicationHashMismatch
  | chainIndexMismatch
  | untrustedMetadata
  | inconsistentChainIndexes
  | inputAlgorithmDeprecated
  | timestampAlgorithmsDeprecated
  | aggregationAlgorithmDeprecated
  | calendarAlgorithmObsolete
  | timestampOutputAlgorithmDeprecated
  | extendedRootMismatch
  | extendedTimeMismatch
  | extendedInputMismatch
  | userPublicationMismatch
  | trustedPublicationMismatch
  | certificateNotFound
  | signatureNotVerified
  | certificateNotValid
  | databaseRootMismatch
  | databaseInputMismatch
  | databaseAggregationTimeMismatch
deriving DecidableEq, Repr

namespace ErrorCode

/-- The code itself. -/
def text : ErrorCode → String
  | wrongDocument => "GEN-01"
  | inconclusive => "GEN-02"
  | inputLevelTooLarge => "GEN-03"
  | wrongInputAlgorithm => "GEN-04"
  | inconsistentChains => "INT-01"
  | inconsistentAggregationTimes => "INT-02"
  | calendarInputMismatch => "INT-03"
  | calendarAggregationTimeMismatch => "INT-04"
  | calendarShapeMismatch => "INT-05"
  | authenticationTimeMismatch => "INT-06"
  | publicationTimeMismatch => "INT-07"
  | authenticationHashMismatch => "INT-08"
  | publicationHashMismatch => "INT-09"
  | chainIndexMismatch => "INT-10"
  | untrustedMetadata => "INT-11"
  | inconsistentChainIndexes => "INT-12"
  | inputAlgorithmDeprecated => "INT-13"
  | timestampAlgorithmsDeprecated => "INT-14"
  | aggregationAlgorithmDeprecated => "INT-15"
  | calendarAlgorithmObsolete => "INT-16"
  | timestampOutputAlgorithmDeprecated => "INT-17"
  | extendedRootMismatch => "PUB-01"
  | extendedTimeMismatch => "PUB-02"
  | extendedInputMismatch => "PUB-03"
  | userPublicationMismatch => "PUB-04"
  | trustedPublicationMismatch => "PUB-05"
  | certificateNotFound => "KEY-01"
  | signatureNotVerified => "KEY-02"
  | certificateNotValid => "KEY-03"
  | databaseRootMismatch => "CAL-01"
  | databaseInputMismatch => "CAL-02"
  | databaseAggregationTimeMismatch => "CAL-03"

/-- What the code means. -/
def message : ErrorCode → String
  | wrongDocument => "Wrong document"
  | inconclusive => "Verification inconclusive"
  | inputLevelTooLarge => "Input hash level too large"
  | wrongInputAlgorithm => "Wrong input hash algorithm"
  | inconsistentChains => "Inconsistent aggregation hash chains"
  | inconsistentAggregationTimes => "Inconsistent aggregation hash chain aggregation times"
  | calendarInputMismatch => "Calendar hash chain input hash mismatch"
  | calendarAggregationTimeMismatch => "Calendar hash chain aggregation time mismatch"
  | calendarShapeMismatch => "Calendar hash chain shape inconsistent with aggregation time"
  | authenticationTimeMismatch =>
    "Calendar hash chain time inconsistent with calendar authentication record time"
  | publicationTimeMismatch => "Calendar hash chain time inconsistent with publication time"
  | authenticationHashMismatch =>
    "Calendar hash chain root hash is inconsistent with calendar authentication record input hash"
  | publicationHashMismatch =>
    "Calendar hash chain root hash is inconsistent with published hash value"
  | chainIndexMismatch => "Aggregation hash chain index mismatch"
  | untrustedMetadata =>
    "The metadata record in the aggregation hash chain may not be trusted"
  | inconsistentChainIndexes => "Inconsistent chain indexes"
  | inputAlgorithmDeprecated => "Document hash algorithm deprecated at the time of signing"
  | timestampAlgorithmsDeprecated =>
    "RFC3161 compatibility record composed of hash algorithms that were deprecated at the time " ++
      "of signing"
  | aggregationAlgorithmDeprecated =>
    "Aggregation hash chain uses hash algorithm that was deprecated at the time of signing"
  | calendarAlgorithmObsolete => "Calendar hash chain contains obsolete hash algorithm"
  | timestampOutputAlgorithmDeprecated =>
    "RFC3161 compatibility record output hash algorithm was deprecated at the time of signing"
  | extendedRootMismatch => "Extender response calendar root hash mismatch"
  | extendedTimeMismatch => "Extender response inconsistent"
  | extendedInputMismatch => "Extender response input hash mismatch"
  | userPublicationMismatch =>
    "Publication record hash and user provided publication hash mismatch"
  | trustedPublicationMismatch =>
    "Publication record hash and publications file publication hash mismatch"
  | certificateNotFound => "Certificate not found"
  | signatureNotVerified => "PKI signature not verified with certificate"
  | certificateNotValid => "Signing certificate not valid at aggregation time"
  | databaseRootMismatch =>
    "Calendar hash chain root hash does not match with calendar database chain root hash"
  | databaseInputMismatch =>
    "Aggregation hash chain root hash and calendar database hash chain input hash mismatch"
  | databaseAggregationTimeMismatch => "Aggregation time mismatch"

end ErrorCode

end Keyless
