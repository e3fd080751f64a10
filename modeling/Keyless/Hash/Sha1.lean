/-
SHA-1.
-/
import Keyless.Hash.Narrow

namespace Keyless.Hash.Sha1

/-- Adds `n` words to a schedule that is kept latest word first. -/
def lengthen : Nat → List UInt32 → List UInt32
  | 0, schedule => schedule
  | n + 1, schedule =>
    let back (i : Nat) := schedule.getD i 0
    lengthen n (rotateLeft (back 2 ^^^ back 7 ^^^ back 13 ^^^ back 15) 1 :: schedule)

/-- Eighty words: the block's own sixteen, then mixtures of earlier ones. -/
def schedule (block : Bytes) : List UInt32 :=
  (lengthen 64 (blockWords Bytes.toNat block).reverse).reverse

/-- The three mixing functions. -/
inductive Mixing where
  | choice
  | parity
  | majority

/-- What a mixing function makes of three words. -/
def Mixing.apply : Mixing → UInt32 → UInt32 → UInt32 → UInt32
  | .choice, b, c, d => (b &&& c) ||| (~~~b &&& d)
  | .parity, b, c, d => b ^^^ c ^^^ d
  | .majority, b, c, d => (b &&& c) ||| (b &&& d) ||| (c &&& d)

/-- The mixing function and the constant of each of the eighty rounds. -/
def rounds : List (Mixing × UInt32) :=
  List.replicate 20 (.choice, 0x5a827999) ++ List.replicate 20 (.parity, 0x6ed9eba1) ++
    List.replicate 20 (.majority, 0x8f1bbcdc) ++ List.replicate 20 (.parity, 0xca62c1d6)

/-- One round, with its word of the schedule. -/
def round (s : Quintet) (mixing : Mixing) (constant word : UInt32) : Quintet :=
  let turned := rotateLeft s.a 5 + mixing.apply s.b s.c s.d + s.e + constant + word
  ⟨turned, s.a, rotateLeft s.b 30, s.c, s.d⟩

/-- Works one block into the state. -/
def compress (s : Quintet) (block : Bytes) : Quintet :=
  let t := (rounds.zip (schedule block)).foldl (fun t kw => round t kw.1.1 kw.1.2 kw.2) s
  ⟨s.a + t.a, s.b + t.b, s.c + t.c, s.d + t.d, s.e + t.e⟩

/-- Blocks of 64 octets that end with a big-endian length. -/
def padding : Padding where
  block := 64
  lengthWidth := 8
  writeLength := Bytes.bigEndian

/-- SHA-1. -/
def sha1 : HashFunction 20 where
  digest message := (absorb padding compress .start message).octets Bytes.bigEndian
  length_digest _ := Quintet.length_octets Bytes.length_bigEndian _

end Keyless.Hash.Sha1
