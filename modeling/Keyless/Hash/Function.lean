/-
Hash functions, and the iterated construction that all the implemented ones share.

A message is padded to whole blocks and the blocks are worked into a chaining
state one after another.  The functions differ in the state, in how a block is
worked in, and in how the length is written; the padding and the walk over the
blocks are here.
-/
import Keyless.Bytes

namespace Keyless

/-- A function from messages to digests of one fixed size. -/
structure HashFunction (size : Nat) where
  /-- The digest of a message. -/
  digest : Bytes → Bytes
  length_digest : ∀ message, (digest message).length = size

namespace Hash

/-- How a message is made into whole blocks. -/
structure Padding where
  /-- Octets in a block. -/
  block : Nat
  /-- Octets of the length field that ends the last block. -/
  lengthWidth : Nat
  /-- Writes the message length, in bits, into that many octets. -/
  writeLength : Nat → Nat → Bytes

/-- The message, a one bit, zeros up to the length field, and the length in bits. -/
def Padding.apply (p : Padding) (message : Bytes) : Bytes :=
  let used := (message.length + 1 + p.lengthWidth) % p.block
  message ++ 0x80 :: List.replicate ((p.block - used) % p.block) 0 ++
    p.writeLength p.lengthWidth (8 * message.length)

/-- Works the blocks of the padded message into the state, first block first. -/
@[specialize] def absorb {σ : Type} (p : Padding) (compress : σ → Bytes → σ) (start : σ)
    (message : Bytes) : σ :=
  ((p.apply message).pieces p.block).foldl compress start

end Hash

end Keyless
