/-
The chaining state of the two 160-bit functions: five 32-bit words.
-/
import Keyless.Hash.Function

namespace Keyless.Hash

/-- Five 32-bit words. -/
structure Quintet where
  a : UInt32
  b : UInt32
  c : UInt32
  d : UInt32
  e : UInt32

namespace Quintet

/-- The words, first word first. -/
def words (s : Quintet) : List UInt32 := [s.a, s.b, s.c, s.d, s.e]

/-- The state in which both 160-bit functions begin. -/
def start : Quintet := ⟨0x67452301, 0xefcdab89, 0x98badcfe, 0x10325476, 0xc3d2e1f0⟩

end Quintet

/-- The word turned to the left by `n` bits, for `n` from 1 to 31. -/
def rotateLeft (x n : UInt32) : UInt32 := (x <<< n) ||| (x >>> (32 - n))

/-- The 32-bit words of a block, each read by `read`. -/
def blockWords (read : Bytes → Nat) (block : Bytes) : List UInt32 :=
  (block.pieces 4).map fun piece => UInt32.ofNat (read piece)

/-- The octets of a state, each word written by `write`. -/
def Quintet.octets (write : Nat → Nat → Bytes) (s : Quintet) : Bytes :=
  s.words.flatMap fun word => write 4 word.toNat

theorem Quintet.length_octets {write : Nat → Nat → Bytes}
    (h : ∀ width value, (write width value).length = width) (s : Quintet) :
    (s.octets write).length = 20 := by
  simp [octets, words, h]

end Keyless.Hash
