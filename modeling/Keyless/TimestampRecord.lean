/-
Legacy time-stamp records.

Before documents were aggregated directly, an RFC 3161 time-stamp could stand
between the document and the lowest chain.  The record keeps the octets around
the two digests of that time-stamp, so that the path from the document's hash
to the chain's input can be computed again.
-/
import Keyless.Imprint.Reading

namespace Keyless

/-- An RFC 3161 time-stamp below the lowest aggregation chain. -/
structure TimestampRecord where
  aggregationTime : Time
  index : List UInt64
  /-- The hash that was time-stamped. -/
  inputHash : Imprint
  /-- Octets of the time-stamp information around the hash. -/
  infoPrefix : Bytes
  infoSuffix : Bytes
  infoAlgorithm : HashAlgorithm
  /-- Octets of the signed attributes around the digest of the information. -/
  attributesPrefix : Bytes
  attributesSuffix : Bytes
  attributesAlgorithm : HashAlgorithm
deriving DecidableEq

namespace TimestampRecord

/-- The hash that the record hands to the lowest chain. -/
def output (r : TimestampRecord) : Except ChainError Imprint := do
  let info ← r.infoAlgorithm.hash (r.infoPrefix ++ r.inputHash.digest ++ r.infoSuffix)
  r.attributesAlgorithm.hash (r.attributesPrefix ++ info.digest ++ r.attributesSuffix)

end TimestampRecord

end Keyless
