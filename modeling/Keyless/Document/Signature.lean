/-
The JSON forms of time-stamp records and signatures.

A signature is checked when it is read, so a document with parts that do not
make a signature does not decode.
-/
import Keyless.Document.Chain
import Keyless.Document.Publication
import Keyless.Signature

namespace Keyless

namespace TimestampRecord

/-- The fields in the order of the record. -/
def toJson (r : TimestampRecord) : Json :=
  .object [("aggregation_time", r.aggregationTime.toJson),
    ("chain_index", .list jsonUInt64 r.index),
    ("input_hash", r.inputHash.toJson),
    ("tst_info_prefix", r.infoPrefix.toJson),
    ("tst_info_suffix", r.infoSuffix.toJson),
    ("tst_info_algorithm", r.infoAlgorithm.toJson),
    ("signed_attributes_prefix", r.attributesPrefix.toJson),
    ("signed_attributes_suffix", r.attributesSuffix.toJson),
    ("signed_attributes_algorithm", r.attributesAlgorithm.toJson)]

/-- The fields of a time-stamp record. -/
def record : Record TimestampRecord :=
  TimestampRecord.mk <$> .required "aggregation_time" Json.toTime
    <*> .required "chain_index" (Json.toList Json.toUInt64)
    <*> .required "input_hash" Imprint.ofJson
    <*> .required "tst_info_prefix" Json.toOctets
    <*> .required "tst_info_suffix" Json.toOctets
    <*> .required "tst_info_algorithm" HashAlgorithm.ofJson
    <*> .required "signed_attributes_prefix" Json.toOctets
    <*> .required "signed_attributes_suffix" Json.toOctets
    <*> .required "signed_attributes_algorithm" HashAlgorithm.ofJson

/-- Reads a time-stamp record. -/
def ofJson : Json → Except DecodeError TimestampRecord := record.decode

end TimestampRecord

namespace SignatureParts

/-- Absent parts are left out. -/
def toJson (parts : SignatureParts) : Json :=
  .object (("aggregation_chains", .list AggregationChain.toJson parts.chains) ::
    (Json.optionalField "calendar_chain" CalendarChain.toJson parts.calendarChain ++
      Json.optionalField "authentication_record" AuthenticationRecord.toJson
        parts.authenticationRecord ++
      Json.optionalField "publication_record" PublicationRecord.toJson parts.publicationRecord ++
      Json.optionalField "rfc3161_record" TimestampRecord.toJson parts.timestampRecord))

/-- The fields of a signature. -/
def record : Record SignatureParts :=
  SignatureParts.mk <$> .required "aggregation_chains" (Json.toList AggregationChain.ofJson)
    <*> .optional "calendar_chain" CalendarChain.ofJson
    <*> .optional "authentication_record" AuthenticationRecord.ofJson
    <*> .optional "publication_record" PublicationRecord.ofJson
    <*> .optional "rfc3161_record" TimestampRecord.ofJson

/-- Reads parts without checking them. -/
def ofJson : Json → Except DecodeError SignatureParts := record.decode

end SignatureParts

namespace Signature

/-- A signature is written as its parts. -/
def toJson (s : Signature) : Json := s.parts.toJson

/-- Reads parts and checks them. -/
def ofJson (value : Json) : Except DecodeError Signature := do
  let parts ← SignatureParts.ofJson value
  match Signature.ofParts parts with
  | .ok signature => return signature
  | .error cause => throw (.chain cause)

end Signature

end Keyless
