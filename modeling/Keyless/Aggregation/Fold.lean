/-
Folding aggregation chains.

A step hashes the running imprint, the sibling and the new level, the imprint
before or after the sibling as the link's direction says.  The level is the
height reached in the tree: one more for each link, plus the link's correction,
and never above 255.  A stack of chains is folded bottom up, each chain from the
level that the one below it reached.
-/
import Keyless.Aggregation.Chain
import Keyless.Imprint.Reading

namespace Keyless

/-- A node of an aggregation tree: its hash, and how high it stands. -/
structure Node where
  hash : Imprint
  level : UInt64
deriving DecidableEq

/-- The highest level of any node. -/
def maxLevel : Nat := 255

/-- The level one link above `level`, if the tree is that high. -/
def levelAbove? (level correction : UInt64) : Option UInt64 :=
  let above := level.toNat + 1 + correction.toNat
  if above ≤ maxLevel then some (UInt64.ofNat above) else none

/-- Every level fits into 64 bits. -/
theorem maxLevel_lt : maxLevel < 18446744073709551616 := by decide

theorem levelAbove?_eq_some_iff {level correction above : UInt64} :
    levelAbove? level correction = some above ↔
      above.toNat = level.toNat + 1 + correction.toNat ∧ above.toNat ≤ maxLevel := by
  have := maxLevel_lt
  by_cases h : level.toNat + 1 + correction.toNat ≤ maxLevel
  · simp only [levelAbove?, if_pos h, Option.some.injEq]
    rw [← UInt64.toNat_inj, UInt64.toNat_ofNat', Nat.mod_eq_of_lt (by omega)]
    omega
  · simp only [levelAbove?, if_neg h, reduceCtorEq, false_iff]
    omega

namespace Link

/-- What the step hashes: the running imprint, the sibling, and the level reached. -/
def message (link : Link) (running : Imprint) (level : UInt64) : Except ChainError Bytes := do
  let sibling ← link.sibling.octets
  return match link.direction with
    | .left => running.octets ++ sibling ++ Bytes.minimal level
    | .right => sibling ++ running.octets ++ Bytes.minimal level

/-- The node that the link leads to; `position` is the link's place in its chain. -/
def above (algorithm : HashAlgorithm) (position : Nat) (node : Node) (link : Link) :
    Except ChainError Node :=
  match levelAbove? node.level link.levelCorrection with
  | none => .error (.computation (.levelExceeded position))
  | some level => do
    let message ← link.message node.hash level
    let hash ← algorithm.hash message
    return { hash, level }

end Link

/-- Climbs links from a node, the first of them at `position` of the chain. -/
def Node.climb (algorithm : HashAlgorithm) : Nat → Node → List Link → Except ChainError Node
  | _, node, [] => .ok node
  | position, node, link :: rest => do
    let next ← link.above algorithm position node
    next.climb algorithm (position + 1) rest

namespace AggregationChain

/-- The root that the chain leads to from its input at `level`. -/
def output (chain : AggregationChain) (level : UInt64) : Except ChainError Node :=
  Node.climb chain.algorithm 0 { hash := chain.inputHash, level } chain.links

end AggregationChain

/-- Folds further chains above a node, each from the level reached so far. -/
def Node.climbChains : Node → List AggregationChain → Except ChainError Node
  | node, [] => .ok node
  | node, chain :: rest => do
    let next ← chain.output node.level
    next.climbChains rest

/-- The root of a stack of chains, lowest chain first.  That the chains join is not checked. -/
def aggregateOutput : List AggregationChain → Except ChainError Node
  | [] => .error (.computation .noChains)
  | lowest :: rest => do
    let node ← lowest.output 0
    node.climbChains rest

end Keyless
