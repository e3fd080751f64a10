/-
The JSON forms of aggregation and calendar chains.
-/
import Keyless.Calendar.Chain
import Keyless.Document.Imprint

namespace Keyless

namespace Direction

/-- A direction is written as its name. -/
def toJson : Direction → Json
  | .left => .string "left"
  | .right => .string "right"

/-- Reads the name of a direction. -/
def ofJson : Json → Except DecodeError Direction :=
  Json.toName [("left", .left), ("right", .right)]

end Direction

namespace Metadata

/-- Absent fields are left out. -/
def toJson (m : Metadata) : Json :=
  .object (("client_id", .string m.clientId) ::
    (Json.optionalField "machine_id" .string m.machineId ++
      Json.optionalField "sequence_number" jsonUInt64 m.sequenceNumber ++
      Json.optionalField "request_time" jsonUInt64 m.requestTime ++
      Json.optionalField "padding" (fun n => .nat n.toNat) m.padding))

/-- The fields of identity metadata. -/
def record : Record Metadata :=
  Metadata.mk <$> .required "client_id" Json.toText
    <*> .optional "machine_id" Json.toText
    <*> .optional "sequence_number" Json.toUInt64
    <*> .optional "request_time" Json.toUInt64
    <*> .optional "padding" Json.toUInt8

/-- Reads identity metadata. -/
def ofJson : Json → Except DecodeError Metadata := record.decode

end Metadata

namespace Sibling

/-- A sibling is an object whose key says of which kind it is. -/
def toJson : Sibling → Json
  | .imprint hash => .object [("imprint", hash.toJson)]
  | .metadata identity => .object [("metadata", identity.toJson)]

/-- The names of the kinds. -/
def kinds : List String := ["imprint", "metadata"]

/-- Reads a sibling.  The name of a kind alone is of the wrong type. -/
def ofJson : Json → Except DecodeError Sibling :=
  Json.toChoice
    (fun name => if name ∈ kinds then .error .wrongType else .error (.unknownVariant name kinds))
    (fun name value =>
      if name = "imprint" then Sibling.imprint <$> Imprint.ofJson value
      else if name = "metadata" then Sibling.metadata <$> Metadata.ofJson value
      else .error (.unknownVariant name kinds))

end Sibling

namespace Link

/-- The level correction is always written. -/
def toJson (link : Link) : Json :=
  .object [("direction", link.direction.toJson), ("sibling", link.sibling.toJson),
    ("level_correction", jsonUInt64 link.levelCorrection)]

/-- The fields of a link; without a level correction it is zero. -/
def record : Record Link :=
  Link.mk <$> .required "direction" Direction.ofJson
    <*> .required "sibling" Sibling.ofJson
    <*> .defaulted "level_correction" Json.toUInt64 0

/-- Reads a link. -/
def ofJson : Json → Except DecodeError Link := record.decode

end Link

namespace AggregationChain

/-- The fields in the order of the record. -/
def toJson (chain : AggregationChain) : Json :=
  .object [("input_hash", chain.inputHash.toJson),
    ("aggregation_time", chain.aggregationTime.toJson),
    ("chain_index", .list jsonUInt64 chain.index),
    ("links", .list Link.toJson chain.links),
    ("algorithm", chain.algorithm.toJson)]

/-- The fields of an aggregation chain. -/
def record : Record AggregationChain :=
  AggregationChain.mk <$> .required "input_hash" Imprint.ofJson
    <*> .required "aggregation_time" Json.toTime
    <*> .required "chain_index" (Json.toList Json.toUInt64)
    <*> .required "links" (Json.toList Link.ofJson)
    <*> .required "algorithm" HashAlgorithm.ofJson

/-- Reads an aggregation chain. -/
def ofJson : Json → Except DecodeError AggregationChain := record.decode

end AggregationChain

namespace CalendarLink

/-- Direction and sibling. -/
def toJson (link : CalendarLink) : Json :=
  .object [("direction", link.direction.toJson), ("sibling", link.sibling.toJson)]

/-- The fields of a calendar link. -/
def record : Record CalendarLink :=
  CalendarLink.mk <$> .required "direction" Direction.ofJson
    <*> .required "sibling" Imprint.ofJson

/-- Reads a calendar link. -/
def ofJson : Json → Except DecodeError CalendarLink := record.decode

end CalendarLink

namespace CalendarChain

/-- The fields in the order of the record. -/
def toJson (chain : CalendarChain) : Json :=
  .object [("input_hash", chain.inputHash.toJson),
    ("aggregation_time", chain.aggregationTime.toJson),
    ("publication_time", chain.publicationTime.toJson),
    ("links", .list CalendarLink.toJson chain.links)]

/-- The fields of a calendar chain. -/
def record : Record CalendarChain :=
  CalendarChain.mk <$> .required "input_hash" Imprint.ofJson
    <*> .required "aggregation_time" Json.toTime
    <*> .required "publication_time" Json.toTime
    <*> .required "links" (Json.toList CalendarLink.ofJson)

/-- Reads a calendar chain. -/
def ofJson : Json → Except DecodeError CalendarChain := record.decode

end CalendarChain

end Keyless
