/-
Rules about the document and about the inside of a signature.

These need nothing but the signature and what the caller knows of the document.
A rule whose element is missing does not apply.
-/
import Keyless.Aggregation.Index
import Keyless.Calendar.Registration
import Keyless.Verification.Context
import Keyless.Verification.Rule

namespace Keyless

/-! ### The document -/

namespace Context

/-- The document's hash has the algorithm of the signed hash. -/
def documentAlgorithmVerdict (ctx : Context) : Verdict :=
  match ctx.documentHash with
  | none => .notApplicable
  | some document => .ofCheck (document.algorithm = ctx.signature.inputHash.algorithm)

/-- The document's hash is the signed hash. -/
def documentHashVerdict (ctx : Context) : Verdict :=
  match ctx.documentHash with
  | none => .notApplicable
  | some document => .ofCheck (document = ctx.signature.inputHash)

/-- The first link leaves room for the document's level. -/
def inputLevelVerdict (ctx : Context) : Verdict :=
  if ctx.inputLevel = 0 then .ok
  else .ofCheck (ctx.inputLevel ≤ ctx.signature.firstLink.levelCorrection)

end Context

/-! ### Aggregation chains and the legacy record -/

/--
Metadata that cannot be taken for an imprint: without padding its content must
not read as one; with padding, of one or two octets, the content must be even.
-/
def Metadata.isTrustworthy (m : Metadata) : Bool :=
  match m.content, m.padding with
  | .error _, _ => false
  | .ok content, none => !(Imprint.ofOctets content).isOk
  | .ok content, some padding => (padding = 1 || padding = 2) && content.length % 2 = 0

/-- The identity that a sibling is, if it is one. -/
def Sibling.identity? : Sibling → Option Metadata
  | .imprint _ => none
  | .metadata identity => some identity

namespace Signature

/-- All identities in the aggregation chains. -/
def identities (s : Signature) : List Metadata :=
  s.chains.flatMap fun chain => chain.links.filterMap fun link => link.sibling.identity?

/-- The signed hash's algorithm was in use when it was signed. -/
def inputAlgorithmVerdict (s : Signature) : Verdict :=
  .ofCheck !(s.inputHash.algorithm.isDeprecated s.aggregationTime)

/-- A verdict about the legacy record, if there is one. -/
def timestampVerdict (s : Signature) (check : TimestampRecord → Bool) : Verdict :=
  match s.timestampRecord with
  | none => .notApplicable
  | some record => .ofCheck (check record)

/-- The legacy record's own algorithms were in use at its time. -/
def timestampInternalAlgorithmsVerdict (s : Signature) : Verdict :=
  s.timestampVerdict fun record =>
    !record.infoAlgorithm.isDeprecated record.aggregationTime &&
      !record.attributesAlgorithm.isDeprecated record.aggregationTime

/-- The algorithm of the hash that the legacy record leads to was in use at its time. -/
def timestampOutputAlgorithmVerdict (s : Signature) : Verdict :=
  s.timestampVerdict fun record =>
    !s.lowestChain.inputHash.algorithm.isDeprecated record.aggregationTime

/-- The legacy record leads to the lowest chain's input. -/
def timestampOutputVerdict (s : Signature) : Except ChainError Verdict :=
  match s.timestampRecord with
  | none => .ok .notApplicable
  | some record => do
    let output ← record.output
    return .ofCheck (output = s.lowestChain.inputHash)

/-- The legacy record has the lowest chain's index. -/
def timestampIndexVerdict (s : Signature) : Verdict :=
  s.timestampVerdict fun record => record.index = s.lowestChain.index

/-- The legacy record has the signature's time. -/
def timestampTimeVerdict (s : Signature) : Verdict :=
  s.timestampVerdict fun record => record.aggregationTime = s.aggregationTime

end Signature

/-- Each lower chain's index is the next one's with the lower chain's own element behind it. -/
def indexSuccessorVerdict : List AggregationChain → Except ChainError Verdict
  | lower :: upper :: rest => do
    let element ← lower.indexElement
    if lower.index = upper.index ++ [element] then indexSuccessorVerdict (upper :: rest)
    else return .fail
  | _ => .ok .ok

/-- Each chain, folded from the level reached so far, leads to the next one's input. -/
def consistencyVerdict (level : UInt64) : List AggregationChain → Except ChainError Verdict
  | lower :: upper :: rest => do
    let node ← lower.output level
    if node.hash = upper.inputHash then consistencyVerdict node.level (upper :: rest)
    else return .fail
  | _ => .ok .ok

/-- Each chain's index ends with the element that its links stand for. -/
def indexVerdict : List AggregationChain → Except ChainError Verdict
  | [] => .ok .ok
  | chain :: rest => do
    let element ← chain.indexElement
    if chain.index.getLast? = some element then indexVerdict rest else return .fail

namespace Signature

/-- Every identity is trustworthy. -/
def metadataVerdict (s : Signature) : Verdict :=
  if s.identities.all Metadata.isTrustworthy then
    if s.identities.isEmpty then .notApplicable else .ok
  else .fail

/-- Every chain's algorithm was in use at the chain's time. -/
def aggregationAlgorithmVerdict (s : Signature) : Verdict :=
  .ofCheck (s.chains.all fun chain => !chain.algorithm.isDeprecated chain.aggregationTime)

/-- All chains belong to one round. -/
def aggregationTimeVerdict (s : Signature) : Verdict :=
  .ofCheck (s.chains.all fun chain => chain.aggregationTime = s.aggregationTime)

/-- The hash of the round's root. -/
def rootHash (s : Signature) : Except ChainError Imprint := do
  let root ← aggregateOutput s.chains
  return root.hash

/-! ### The calendar chain and its records -/

/-- A verdict about the calendar chain, if there is one. -/
def calendarVerdict (s : Signature) (check : CalendarChain → Except ChainError Bool) :
    Except ChainError Verdict :=
  match s.calendarChain with
  | none => .ok .notApplicable
  | some calendar => do
    let passed ← check calendar
    return .ofCheck passed

/-- The calendar chain begins at the round's root. -/
def calendarInputVerdict (s : Signature) : Except ChainError Verdict :=
  s.calendarVerdict fun calendar => do
    let root ← s.rootHash
    return root = calendar.inputHash

/-- The calendar chain begins at the round's time. -/
def calendarTimeVerdict (s : Signature) : Except ChainError Verdict :=
  s.calendarVerdict fun calendar => .ok (calendar.aggregationTime = s.aggregationTime)

/-- The calendar chain's shape encodes the time at which it begins. -/
def registrationVerdict (s : Signature) : Except ChainError Verdict :=
  s.calendarVerdict fun calendar =>
    .ok (calendar.registrationTime.toOption = some calendar.aggregationTime)

/-- No sibling's algorithm was obsolete at the time of the calendar root. -/
def calendarAlgorithmVerdict (s : Signature) : Except ChainError Verdict :=
  s.calendarVerdict fun calendar =>
    .ok (calendar.links.all fun link =>
      !link.sibling.algorithm.isObsolete calendar.publicationTime)

/-- A verdict about the calendar chain and a calendar root that goes with it. -/
def recordVerdict (s : Signature) (root : Option PublicationData)
    (check : CalendarChain → PublicationData → Except ChainError Bool) :
    Except ChainError Verdict :=
  match s.calendarChain, root with
  | some calendar, some data => do
    let passed ← check calendar data
    return .ofCheck passed
  | _, _ => .ok .notApplicable

/-- The record's time is the calendar root's. -/
def recordTimeVerdict (s : Signature) (root : Option PublicationData) :
    Except ChainError Verdict :=
  s.recordVerdict root fun calendar data =>
    .ok (data.publicationTime = calendar.publicationTime)

/-- The record's hash is the calendar root. -/
def recordHashVerdict (s : Signature) (root : Option PublicationData) :
    Except ChainError Verdict :=
  s.recordVerdict root fun calendar data => do
    let output ← calendar.output
    return data.publishedHash = output

/-- The calendar root that was published. -/
def publishedRoot (s : Signature) : Option PublicationData :=
  s.publicationRecord.map PublicationRecord.publicationData

/-- The calendar root that was signed. -/
def authenticatedRoot (s : Signature) : Option PublicationData :=
  s.authenticationRecord.map AuthenticationRecord.publicationData

end Signature

end Keyless
