/-
Signatures made from signatures: another lowest chain, or a higher document.

Both change the level correction of the first link, which says how many levels
lie below the lowest chain.  Prepending fills some of those levels with a chain;
applying an input level adds levels for a document that sits above the leaves.
-/
import Keyless.Aggregation.Index
import Keyless.Signature

namespace Keyless

/-- The links with the first one's level correction replaced. -/
def setFirstLinkCorrection (correction : UInt64) : List Link → List Link
  | [] => []
  | first :: rest => { first with levelCorrection := correction } :: rest

/-- The chains with the level correction of the lowest chain's first link replaced. -/
def setFirstCorrection (correction : UInt64) : List AggregationChain → List AggregationChain
  | [] => []
  | lowest :: rest =>
    { lowest with links := setFirstLinkCorrection correction lowest.links } :: rest

/-- The sum of two 64-bit numbers, if 64 bits hold it. -/
def addWithin64? (a b : UInt64) : Option UInt64 :=
  if a.toNat + b.toNat < UInt64.size then some (a + b) else none

namespace Signature

/-- The level correction of the first link. -/
def firstCorrection (s : Signature) : UInt64 := s.firstLink.levelCorrection

/-- A chain as it stands below the lowest one, whose time it takes and whose index it extends. -/
def lowered (s : Signature) (chain : AggregationChain) (element : UInt64) : AggregationChain :=
  { chain with
    aggregationTime := s.lowestChain.aggregationTime
    index := s.lowestChain.index ++ [element] }

/--
Puts a chain below the lowest one.  The chain must lead to the lowest chain's
input, within the levels that the first link leaves for it; these are taken off
the first link, so that the whole still folds to the same root.
-/
def prepend (s : Signature) (chain : AggregationChain) : Except ChainError Signature := do
  if chain.links = [] then throw (.prependRejected .noLinks)
  let top ← chain.output 0
  if s.firstCorrection < top.level then
    throw (.prependRejected (.levelTooHigh top.level s.firstCorrection))
  if top.hash ≠ s.lowestChain.inputHash then
    throw (.prependRejected (.outputMismatch top.hash s.lowestChain.inputHash))
  let element ← chain.indexElement
  let above := setFirstCorrection (s.firstCorrection - top.level) s.chains
  ofParts { s.parts with chains := s.lowered chain element :: above }

/-- Accounts for a document that sits `level` levels above the leaves. -/
def applyLevel (s : Signature) (level : UInt64) : Except ChainError Signature :=
  if level = 0 then .ok s
  else
    match addWithin64? s.firstCorrection level with
    | some correction =>
      ofParts { s.parts with chains := setFirstCorrection correction s.chains }
    | none => .error (.computation (.correctionOverflow level))

end Signature

end Keyless
