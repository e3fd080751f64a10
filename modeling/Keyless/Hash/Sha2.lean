/-
The compression function of SHA-2, for words of either size.

The two families differ in the word size, the round constants and the amounts
of four mixing functions.  Everything else is stated once, over a `Family`.
-/
import Keyless.Hash.Function

namespace Keyless.Hash.Sha2

/-- The chaining state: eight words. -/
structure State (ω : Type) where
  a : ω
  b : ω
  c : ω
  d : ω
  e : ω
  f : ω
  g : ω
  h : ω

/-- What the 32-bit and the 64-bit functions do not share. -/
structure Family (ω : Type) where
  /-- Octets in a word. -/
  wordSize : Nat
  ofNat : Nat → ω
  toNat : ω → Nat
  /-- One constant for each round. -/
  roundConstants : List ω
  bigSigma0 : ω → ω
  bigSigma1 : ω → ω
  smallSigma0 : ω → ω
  smallSigma1 : ω → ω

variable {ω : Type} [Add ω] [AndOp ω] [XorOp ω] [Complement ω]

/-- The words of a state, first word first. -/
def State.words (s : State ω) : List ω := [s.a, s.b, s.c, s.d, s.e, s.f, s.g, s.h]

/-- Word-by-word sum of two states. -/
@[specialize] def State.add (s t : State ω) : State ω :=
  ⟨s.a + t.a, s.b + t.b, s.c + t.c, s.d + t.d, s.e + t.e, s.f + t.f, s.g + t.g, s.h + t.h⟩

namespace Family

/-- Adds `n` words to a schedule that is kept latest word first. -/
@[specialize] def lengthen (v : Family ω) : Nat → List ω → List ω
  | 0, schedule => schedule
  | n + 1, schedule =>
    let back (i : Nat) := schedule.getD i (v.ofNat 0)
    let word := v.smallSigma1 (back 1) + back 6 + v.smallSigma0 (back 14) + back 15
    v.lengthen n (word :: schedule)

/-- One word for each round: the block's own sixteen, then mixtures of earlier ones. -/
@[specialize] def schedule (v : Family ω) (block : Bytes) : List ω :=
  let own := (block.pieces v.wordSize).map fun piece => v.ofNat (Bytes.toNat piece)
  (v.lengthen (v.roundConstants.length - 16) own.reverse).reverse

/-- One round, with its constant and its word of the schedule. -/
@[specialize] def round (v : Family ω) (s : State ω) (constant word : ω) : State ω :=
  let choice := (s.e &&& s.f) ^^^ (~~~s.e &&& s.g)
  let majority := (s.a &&& s.b) ^^^ (s.a &&& s.c) ^^^ (s.b &&& s.c)
  let t1 := s.h + v.bigSigma1 s.e + choice + constant + word
  let t2 := v.bigSigma0 s.a + majority
  ⟨t1 + t2, s.a, s.b, s.c, s.d + t1, s.e, s.f, s.g⟩

/-- Works one block into the state. -/
@[specialize] def compress (v : Family ω) (s : State ω) (block : Bytes) : State ω :=
  let rounds := v.roundConstants.zip (v.schedule block)
  s.add (rounds.foldl (fun t kw => v.round t kw.1 kw.2) s)

/-- Blocks are sixteen words long and end with a length of two words. -/
def padding (v : Family ω) : Padding where
  block := 16 * v.wordSize
  lengthWidth := 2 * v.wordSize
  writeLength := Bytes.bigEndian

/-- All octets of the final state. -/
@[specialize] def finalOctets (v : Family ω) (start : State ω) (message : Bytes) : Bytes :=
  (absorb v.padding v.compress start message).words.flatMap fun word =>
    Bytes.bigEndian v.wordSize (v.toNat word)

theorem length_finalOctets (v : Family ω) (start : State ω) (message : Bytes) :
    (v.finalOctets start message).length = 8 * v.wordSize := by
  simp [finalOctets, State.words]
  omega

/-- The hash function that begins at `start` and keeps the first `size` octets. -/
@[specialize] def hashFunction (v : Family ω) (start : State ω) (size : Nat)
    (size_le : size ≤ 8 * v.wordSize) : HashFunction size where
  digest message := (v.finalOctets start message).take size
  length_digest message := by
    rw [List.length_take, length_finalOctets]
    omega

end Family

end Keyless.Hash.Sha2
