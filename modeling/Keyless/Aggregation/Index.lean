/-
The index of a chain: its links' directions as a number.

The links are read from the root down, most significant bit first, behind a
leading one; a left link is a one.  The leading one keeps the length, so
distinct direction lists have distinct numbers.
-/
import Keyless.Aggregation.Chain

namespace Keyless

/-- A left link counts one, a right link nothing. -/
def Direction.bit : Direction → Nat
  | .left => 1
  | .right => 0

/-- The number of a list of directions, leaf first. -/
def directionNumber : List Direction → Nat
  | [] => 1
  | direction :: rest => 2 * directionNumber rest + direction.bit

/-- A list of directions has a number below two to the power of its length plus one. -/
theorem directionNumber_lt (directions : List Direction) :
    directionNumber directions < 1 <<< (directions.length + 1) := by
  induction directions with
  | nil => decide
  | cons d rest ih =>
    have : d.bit ≤ 1 := by cases d <;> decide
    simp only [directionNumber, List.length_cons, Nat.one_shiftLeft, Nat.pow_succ] at ih ⊢
    omega

/-- The number as one element of a chain index; 64 links or more do not fit. -/
def indexElement (directions : List Direction) : Except ChainError UInt64 :=
  if 64 ≤ directions.length then .error (.computation (.indexTooLong directions.length))
  else .ok (UInt64.ofNat (directionNumber directions))

/-- The directions of the chain's links, leaf first. -/
def AggregationChain.directions (chain : AggregationChain) : List Direction :=
  chain.links.map Link.direction

/-- The index element that the chain's links stand for. -/
def AggregationChain.indexElement (chain : AggregationChain) : Except ChainError UInt64 :=
  Keyless.indexElement chain.directions

end Keyless
