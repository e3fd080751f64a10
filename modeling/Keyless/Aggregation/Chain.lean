/-
Aggregation chains: paths from a leaf of an aggregation tree to its root.
-/
import Keyless.Metadata

namespace Keyless

/-- On which side of a link the running hash stands. -/
inductive Direction where
  /-- The running hash is on the left and the sibling on the right. -/
  | left
  /-- The running hash is on the right and the sibling on the left. -/
  | right
deriving DecidableEq, Repr

/-- What a link joins to the running hash. -/
inductive Sibling where
  | imprint (hash : Imprint)
  | metadata (identity : Metadata)
deriving DecidableEq

/-- The octets that a sibling brings to a step. -/
def Sibling.octets : Sibling → Except ChainError Bytes
  | .imprint hash => .ok hash.octets
  | .metadata identity => identity.content

/-- One step of an aggregation chain. -/
structure Link where
  direction : Direction
  sibling : Sibling
  /-- Levels that the step climbs beyond one. -/
  levelCorrection : UInt64
deriving DecidableEq

/-- A path from a leaf to the root of one aggregation tree. -/
structure AggregationChain where
  /-- The hash at the leaf. -/
  inputHash : Imprint
  aggregationTime : Time
  /-- The place of the chain among all trees of the round, topmost tree first. -/
  index : List UInt64
  /-- The links from the leaf to the root. -/
  links : List Link
  /-- The algorithm of every step. -/
  algorithm : HashAlgorithm
deriving DecidableEq

end Keyless
