/-
Imprints: digests that carry the algorithm they were made with.
-/
import Keyless.Hash.Algorithm
import Keyless.Hex

namespace Keyless

/-- A digest and its algorithm, which fixes the digest's length. -/
structure Imprint where
  algorithm : HashAlgorithm
  digest : Bytes
  length_digest : digest.length = algorithm.digestLength
deriving DecidableEq

namespace Imprint

/-- The algorithm's id, then the digest. -/
def octets (i : Imprint) : Bytes := i.algorithm.id :: i.digest

/-- The octets in hexadecimal. -/
def text (i : Imprint) : String := Hex.encode i.octets

/-- The imprint with its algorithm spelled out. -/
def labelled (i : Imprint) : String :=
  "DataHash(" ++ i.algorithm.name ++ ":" ++ Hex.encode i.digest ++ ")"

@[ext] theorem ext {i j : Imprint} (algorithm : i.algorithm = j.algorithm)
    (digest : i.digest = j.digest) : i = j := by
  cases i; cases j; simp_all

end Imprint

end Keyless
