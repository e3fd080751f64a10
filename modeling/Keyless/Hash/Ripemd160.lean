/-
RIPEMD-160.

Each block is worked into two copies of the state along two lines of eighty
rounds, which take the words of the block in different orders; the two results
are then combined crosswise.
-/
import Keyless.Hash.Narrow

namespace Keyless.Hash.Ripemd160

/-- The five mixing functions, numbered as the left line uses them. -/
def mix : Nat → UInt32 → UInt32 → UInt32 → UInt32
  | 0, x, y, z => x ^^^ y ^^^ z
  | 1, x, y, z => (x &&& y) ||| (~~~x &&& z)
  | 2, x, y, z => (x ||| ~~~y) ^^^ z
  | 3, x, y, z => (x &&& z) ||| (y &&& ~~~z)
  | _, x, y, z => x ^^^ (y ||| ~~~z)

/-- One of the two lines. -/
structure Line where
  /-- The word of the block that each round takes. -/
  order : List Nat
  /-- How far each round turns its sum. -/
  turns : List UInt32
  /-- The mixing function and the constant of each group of sixteen rounds. -/
  groups : List (Nat × UInt32)

/-- The left line. -/
def left : Line where
  order := [
    0, 1, 2, 3, 4, 5, 6, 7, 8, 9, 10, 11, 12, 13, 14, 15,
    7, 4, 13, 1, 10, 6, 15, 3, 12, 0, 9, 5, 2, 14, 11, 8,
    3, 10, 14, 4, 9, 15, 8, 1, 2, 7, 0, 6, 13, 11, 5, 12,
    1, 9, 11, 10, 0, 8, 12, 4, 13, 3, 7, 15, 14, 5, 6, 2,
    4, 0, 5, 9, 7, 12, 2, 10, 14, 1, 3, 8, 11, 6, 15, 13]
  turns := [
    11, 14, 15, 12, 5, 8, 7, 9, 11, 13, 14, 15, 6, 7, 9, 8,
    7, 6, 8, 13, 11, 9, 7, 15, 7, 12, 15, 9, 11, 7, 13, 12,
    11, 13, 6, 7, 14, 9, 13, 15, 14, 8, 13, 6, 5, 12, 7, 5,
    11, 12, 14, 15, 14, 15, 9, 8, 9, 14, 5, 6, 8, 6, 5, 12,
    9, 15, 5, 11, 6, 8, 13, 12, 5, 12, 13, 14, 11, 8, 5, 6]
  groups := [(0, 0x00000000), (1, 0x5a827999), (2, 0x6ed9eba1), (3, 0x8f1bbcdc), (4, 0xa953fd4e)]

/-- The right line, which uses the mixing functions in the opposite order. -/
def right : Line where
  order := [
    5, 14, 7, 0, 9, 2, 11, 4, 13, 6, 15, 8, 1, 10, 3, 12,
    6, 11, 3, 7, 0, 13, 5, 10, 14, 15, 8, 12, 4, 9, 1, 2,
    15, 5, 1, 3, 7, 14, 6, 9, 11, 8, 12, 2, 10, 0, 4, 13,
    8, 6, 4, 1, 3, 11, 15, 0, 5, 12, 2, 13, 9, 7, 10, 14,
    12, 15, 10, 4, 1, 5, 8, 7, 6, 2, 13, 14, 0, 3, 9, 11]
  turns := [
    8, 9, 9, 11, 13, 15, 15, 5, 7, 7, 8, 11, 14, 14, 12, 6,
    9, 13, 15, 7, 12, 8, 9, 11, 7, 7, 12, 7, 6, 15, 13, 11,
    9, 7, 15, 11, 8, 6, 6, 14, 12, 13, 5, 14, 13, 13, 7, 5,
    15, 5, 8, 11, 14, 14, 6, 14, 6, 9, 12, 9, 12, 5, 15, 8,
    8, 5, 12, 9, 12, 5, 14, 6, 8, 13, 6, 5, 15, 13, 11, 11]
  groups := [(4, 0x50a28be6), (3, 0x5c4dd124), (2, 0x6d703ef3), (1, 0x7a6d76e9), (0, 0x00000000)]

/-- The rounds of a line: mixing function, constant, word index and turn. -/
def Line.rounds (line : Line) : List ((Nat × UInt32) × Nat × UInt32) :=
  (line.groups.flatMap (List.replicate 16)).zip (line.order.zip line.turns)

/-- Runs a line over a block's words. -/
def Line.run (line : Line) (words : List UInt32) (s : Quintet) : Quintet :=
  line.rounds.foldl (fun t r =>
    let ((mixing, constant), index, turn) := r
    let sum := t.a + mix mixing t.b t.c t.d + words.getD index 0 + constant
    ⟨t.e, rotateLeft sum turn + t.e, t.b, rotateLeft t.c 10, t.d⟩) s

/-- Works one block into the state. -/
def compress (s : Quintet) (block : Bytes) : Quintet :=
  let words := blockWords Bytes.toNatLittle block
  let l := left.run words s
  let r := right.run words s
  ⟨s.b + l.c + r.d, s.c + l.d + r.e, s.d + l.e + r.a, s.e + l.a + r.b, s.a + l.b + r.c⟩

/-- Blocks of 64 octets that end with a little-endian length. -/
def padding : Padding where
  block := 64
  lengthWidth := 8
  writeLength := Bytes.littleEndian

/-- RIPEMD-160. -/
def ripemd160 : HashFunction 20 where
  digest message := (absorb padding compress .start message).octets Bytes.littleEndian
  length_digest _ := Quintet.length_octets Bytes.length_littleEndian _

end Keyless.Hash.Ripemd160
