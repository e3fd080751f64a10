/-
The registry of hash algorithms.

An algorithm has a one-octet id, a digest length, a name, and for SHA-1 the
dates from which it is deprecated and obsolete.  Five of the registered
algorithms have no function here: they can be named and their digests carried
along, but nothing can be hashed with them.
-/
import Keyless.Hash.Ripemd160
import Keyless.Hash.Sha1
import Keyless.Hash.Sha256
import Keyless.Hash.Sha512
import Keyless.Time

namespace Keyless

/-- A registered hash algorithm. -/
inductive HashAlgorithm where
  | sha1
  | sha256
  | ripemd160
  | sha224
  | sha384
  | sha512
  | sha3224
  | sha3256
  | sha3384
  | sha3512
  | sm3
deriving DecidableEq, Repr

namespace HashAlgorithm

/-- Every algorithm, in the order of the ids. -/
def all : List HashAlgorithm :=
  [sha1, sha256, ripemd160, sha224, sha384, sha512, sha3224, sha3256, sha3384, sha3512, sm3]

/-- The octet that stands before a digest of the algorithm. -/
def id : HashAlgorithm → UInt8
  | sha1 => 0x00
  | sha256 => 0x01
  | ripemd160 => 0x02
  | sha224 => 0x03
  | sha384 => 0x04
  | sha512 => 0x05
  | sha3224 => 0x07
  | sha3256 => 0x08
  | sha3384 => 0x09
  | sha3512 => 0x0A
  | sm3 => 0x0B

/-- Octets in a digest. -/
def digestLength : HashAlgorithm → Nat
  | sha1 | ripemd160 => 20
  | sha256 | sha3256 | sm3 => 32
  | sha224 | sha3224 => 28
  | sha384 | sha3384 => 48
  | sha512 | sha3512 => 64

/-- The name in documents. -/
def name : HashAlgorithm → String
  | sha1 => "SHA-1"
  | sha256 => "SHA-256"
  | ripemd160 => "RIPEMD-160"
  | sha224 => "SHA-224"
  | sha384 => "SHA-384"
  | sha512 => "SHA-512"
  | sha3224 => "SHA3-224"
  | sha3256 => "SHA3-256"
  | sha3384 => "SHA3-384"
  | sha3512 => "SHA3-512"
  | sm3 => "SM3"

/-- The algorithm with an id. -/
def ofId? (id : UInt8) : Option HashAlgorithm := all.find? (·.id = id)

/-- The algorithm with exactly this name. -/
def ofName? (name : String) : Option HashAlgorithm := all.find? (·.name = name)

/-- Capitals for small letters and hyphens for underscores; ASCII only. -/
def normalizedName (name : String) : List Char :=
  name.toList.map fun c => if c = '_' then '-' else c.toUpper

/-- The algorithm with this name up to case, where hyphens may be underscores or all absent. -/
def ofLooseName? (name : String) : Option HashAlgorithm :=
  let wanted := normalizedName name
  all.find? fun a => a.name.toList = wanted ∨ a.name.toList.filter (· ≠ '-') = wanted

/-- The function of the algorithm, if the library has one. -/
def function : (a : HashAlgorithm) → Option (HashFunction a.digestLength)
  | sha1 => some Hash.Sha1.sha1
  | sha256 => some Hash.Sha256.sha256
  | ripemd160 => some Hash.Ripemd160.ripemd160
  | sha224 => some Hash.Sha256.sha224
  | sha384 => some Hash.Sha512.sha384
  | sha512 => some Hash.Sha512.sha512
  | sha3224 | sha3256 | sha3384 | sha3512 | sm3 => none

/-- Whether digests can be computed. -/
def isImplemented : HashAlgorithm → Bool
  | sha1 | sha256 | ripemd160 | sha224 | sha384 | sha512 => true
  | sha3224 | sha3256 | sha3384 | sha3512 | sm3 => false

/-- From when the algorithm must not be used for new input: SHA-1 from 2016-07-01. -/
def deprecatedSince : HashAlgorithm → Option Time
  | sha1 => Time.ofSeconds? 1467331200
  | _ => none

/-- From when the algorithm is not trusted at all: SHA-1 from 2018-07-01. -/
def obsoleteSince : HashAlgorithm → Option Time
  | sha1 => Time.ofSeconds? 1530403200
  | _ => none

/-- Whether the algorithm was deprecated at a time. -/
def isDeprecated (a : HashAlgorithm) (moment : Time) : Bool :=
  a.deprecatedSince.any (· ≤ moment)

/-- Whether the algorithm was obsolete at a time. -/
def isObsolete (a : HashAlgorithm) (moment : Time) : Bool :=
  a.obsoleteSince.any (· ≤ moment)

theorem ofId?_id (a : HashAlgorithm) : ofId? a.id = some a := by cases a <;> decide

/-- The implemented algorithms are those with a function. -/
theorem isImplemented_eq_isSome (a : HashAlgorithm) : a.isImplemented = a.function.isSome := by
  cases a <;> rfl

end HashAlgorithm

end Keyless
