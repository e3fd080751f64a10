/-
Imprints from octets, from text, and from messages, which may come in pieces.
-/
import Keyless.ChainError
import Keyless.Text

namespace Keyless

/-- The algorithm with an id, or the error that names the id. -/
def HashAlgorithm.ofId (id : UInt8) : Except ChainError HashAlgorithm :=
  match ofId? id with
  | some a => .ok a
  | none => .error (.unknownAlgorithm id)

/-- The algorithm with a loosely written name, or the error that names it. -/
def HashAlgorithm.ofLooseName (name : String) : Except ChainError HashAlgorithm :=
  match ofLooseName? name with
  | some a => .ok a
  | none => .error (.invalidImprint (.unknownName name))

/-- Refuses an algorithm without a function. -/
def HashAlgorithm.requireImplemented (a : HashAlgorithm) : Except ChainError Unit :=
  if a.isImplemented then .ok () else .error (.notImplemented a)

/-- The imprint of a message. -/
def HashAlgorithm.hash (a : HashAlgorithm) (message : Bytes) : Except ChainError Imprint :=
  match a.function with
  | some f => .ok ⟨a, f.digest message, f.length_digest message⟩
  | none => .error (.notImplemented a)

namespace Imprint

/-- The imprint with the given digest, whose length must be the algorithm's. -/
def ofDigest (algorithm : HashAlgorithm) (digest : Bytes) : Except ChainError Imprint :=
  if h : digest.length = algorithm.digestLength then .ok ⟨algorithm, digest, h⟩
  else .error (.digestLength algorithm digest.length)

/-- Reads an id and the digest that follows it. -/
def ofOctets : Bytes → Except ChainError Imprint
  | [] => .error (.invalidImprint .empty)
  | id :: digest => do
    let algorithm ← HashAlgorithm.ofId id
    ofDigest algorithm digest

/-- Reads hexadecimal text in either case, between blanks. -/
def ofText (text : String) : Except ChainError Imprint :=
  match Hex.decode (String.ofList (Text.trim text.toList)) with
  | .ok octets => ofOctets octets
  | .error fault => .error (.invalidImprint (.notHexadecimal fault))

/-- Reading the octets of an imprint gives the imprint. -/
theorem ofOctets_octets (i : Imprint) : ofOctets i.octets = .ok i := by
  simp [ofOctets, octets, HashAlgorithm.ofId, HashAlgorithm.ofId?_id, ofDigest, i.length_digest,
    bind, Except.bind]

end Imprint

/-! ### Hashing in steps

A hasher keeps what it has absorbed; finishing it hashes all of that at once.  So the imprint
depends on the octets alone, not on how they were cut up. -/

/-- A message in the making, under an algorithm with a function. -/
structure Hasher where
  algorithm : HashAlgorithm
  function : HashFunction algorithm.digestLength
  absorbed : Bytes

namespace Hasher

/-- A hasher that has absorbed nothing. -/
def start (algorithm : HashAlgorithm) : Except ChainError Hasher :=
  match algorithm.function with
  | some function => .ok { algorithm, function, absorbed := [] }
  | none => .error (.notImplemented algorithm)

/-- Absorbs octets. -/
def update (h : Hasher) (octets : Bytes) : Hasher :=
  { h with absorbed := h.absorbed ++ octets }

/-- Absorbs the octets of an imprint. -/
def updateImprint (h : Hasher) (i : Imprint) : Hasher := h.update i.octets

/-- The imprint of everything absorbed. -/
def finish (h : Hasher) : Imprint :=
  ⟨h.algorithm, h.function.digest h.absorbed, h.function.length_digest h.absorbed⟩

end Hasher

end Keyless
