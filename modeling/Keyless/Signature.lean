/-
Keyless signatures.

A signature leads from a document's hash through a stack of aggregation chains
to the root of a round, perhaps on through the calendar, and perhaps to a
published or signed calendar root.  Its parts are checked once, when it is put
together; the check is part of the type, so every `Signature` has a lowest chain
and that chain a first link.
-/
import Keyless.Aggregation.Fold
import Keyless.Calendar.Fold
import Keyless.Publication
import Keyless.TimestampRecord

namespace Keyless

/-- The parts of a signature, not checked. -/
structure SignatureParts where
  /-- The aggregation chains, lowest first. -/
  chains : List AggregationChain
  calendarChain : Option CalendarChain
  authenticationRecord : Option AuthenticationRecord
  publicationRecord : Option PublicationRecord
  timestampRecord : Option TimestampRecord
deriving DecidableEq

/-- A link's sibling must be of use in a fold. -/
def Link.check (link : Link) : Except ChainError Unit :=
  match link.sibling with
  | .imprint hash => hash.algorithm.requireImplemented
  | .metadata identity => do
    let _ ← identity.content
    return ()

/-- A chain must have links and be of use in a fold. -/
def AggregationChain.check (chain : AggregationChain) : Except ChainError Unit := do
  if chain.links = [] then throw (.invalidSignature .chainWithoutLinks)
  chain.algorithm.requireImplemented
  chain.inputHash.algorithm.requireImplemented
  chain.links.forM Link.check

/-- A calendar chain must be of use in a fold. -/
def CalendarChain.check (chain : CalendarChain) : Except ChainError Unit := do
  chain.inputHash.algorithm.requireImplemented
  chain.links.forM fun link => link.sibling.algorithm.requireImplemented

/-- A time-stamp record must be of use in computing its output. -/
def TimestampRecord.check (record : TimestampRecord) : Except ChainError Unit := do
  record.infoAlgorithm.requireImplemented
  record.attributesAlgorithm.requireImplemented

namespace SignatureParts

/-- A record needs a calendar chain, and there is at most one. -/
def checkRecords (parts : SignatureParts) : Except ChainError Unit := do
  let hasRecord := parts.authenticationRecord.isSome || parts.publicationRecord.isSome
  if hasRecord && parts.calendarChain.isNone then
    throw (.invalidSignature .recordWithoutCalendar)
  if parts.authenticationRecord.isSome && parts.publicationRecord.isSome then
    throw (.invalidSignature .bothRecords)

/-- Whether the parts make a signature; the first fault decides. -/
def check (parts : SignatureParts) : Except ChainError Unit := do
  if parts.chains = [] then throw (.invalidSignature .noChains)
  parts.chains.forM AggregationChain.check
  parts.calendarChain.toList.forM CalendarChain.check
  parts.timestampRecord.toList.forM TimestampRecord.check
  parts.checkRecords

end SignatureParts

/-- A keyless signature: parts that passed the check. -/
structure Signature where
  parts : SignatureParts
  check_parts : parts.check = .ok ()
deriving DecidableEq

namespace Signature

/-- Puts a signature together. -/
def ofParts (parts : SignatureParts) : Except ChainError Signature :=
  match h : parts.check with
  | .ok () => .ok ⟨parts, h⟩
  | .error fault => .error fault

/-- The aggregation chains, lowest first. -/
def chains (s : Signature) : List AggregationChain := s.parts.chains

theorem chains_ne_nil (s : Signature) : s.chains ≠ [] := by
  intro h
  have := s.check_parts
  simp [chains] at h
  simp [SignatureParts.check, h, throw, throwThe, MonadExceptOf.throw, bind, Except.bind] at this

/-- The lowest aggregation chain. -/
def lowestChain (s : Signature) : AggregationChain := s.chains.head s.chains_ne_nil

theorem lowestChain_links_ne_nil (s : Signature) : s.lowestChain.links ≠ [] := by
  intro h
  have checked := s.check_parts
  obtain ⟨lowest, rest, shape⟩ := List.exists_cons_of_ne_nil s.chains_ne_nil
  have parts : s.parts.chains = lowest :: rest := shape
  have links : lowest.links = [] := by simpa [lowestChain, shape] using h
  simp [SignatureParts.check, parts, AggregationChain.check, links, throw, throwThe,
    MonadExceptOf.throw, bind, Except.bind, List.forM_cons] at checked

/-- The first link of the lowest chain. -/
def firstLink (s : Signature) : Link := s.lowestChain.links.head s.lowestChain_links_ne_nil

/-- The calendar chain, if the signature reaches the calendar. -/
def calendarChain (s : Signature) : Option CalendarChain := s.parts.calendarChain

/-- The signed calendar root, if any. -/
def authenticationRecord (s : Signature) : Option AuthenticationRecord :=
  s.parts.authenticationRecord

/-- The published calendar root, if any. -/
def publicationRecord (s : Signature) : Option PublicationRecord := s.parts.publicationRecord

/-- The legacy record, if any. -/
def timestampRecord (s : Signature) : Option TimestampRecord := s.parts.timestampRecord

/-- The hash that was signed: the legacy record's input, or else the lowest chain's. -/
def inputHash (s : Signature) : Imprint :=
  match s.timestampRecord with
  | some record => record.inputHash
  | none => s.lowestChain.inputHash

/-- The round of the lowest chain. -/
def aggregationTime (s : Signature) : Time := s.lowestChain.aggregationTime

/-- The time of the calendar root, if there is a calendar chain. -/
def publicationTime (s : Signature) : Option Time :=
  s.calendarChain.map CalendarChain.publicationTime

/-- Whether the signature leads to a publication. -/
def isExtended (s : Signature) : Bool := s.publicationRecord.isSome

end Signature

end Keyless
