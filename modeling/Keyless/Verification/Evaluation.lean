/-
Evaluating rules.

A rule either settles its verdict from the context, or it wants an extended
chain and judges that.  All asking happens in one place, `Rule.verify`, so that
every rule treats a chain that cannot be had in the same way: it is undecided.
-/
import Keyless.Calendar.Fold
import Keyless.Verification.Anchors
import Keyless.Verification.Consistency
import Keyless.Verification.Run

namespace Keyless

/-- What a rule needs for its verdict. -/
inductive Demand where
  /-- Nothing more. -/
  | settled (verdict : Except ChainError Verdict)
  /-- The extended chain with a key. -/
  | extended (key : ChainKey) (judge : CalendarChain → Except ChainError Verdict)

namespace Context

/-- Judges the chain extended to a target, if there is a target. -/
def demandTarget (ctx : Context) (target : ExtensionTarget)
    (judge : PublicationData → CalendarChain → Except ChainError Verdict) : Demand :=
  match ctx.target? target with
  | none => .settled (.ok .anchorUnavailable)
  | some publication => .extended (some publication.publicationTime) (judge publication)

/-- The extended chain leads to the published hash. -/
def demandTargetRoot (ctx : Context) (target : ExtensionTarget) : Demand :=
  ctx.demandTarget target fun publication extended => do
    let root ← extended.output
    return .ofCheck (root = publication.publishedHash)

/-- The extended chain leads from the signature's time to the publication's. -/
def demandTargetTime (ctx : Context) (target : ExtensionTarget) : Demand :=
  ctx.demandTarget target fun publication extended =>
    .ok (.ofCheck (extended.publicationTime = publication.publicationTime &&
      extended.aggregationTime = ctx.signature.aggregationTime))

/-- The extended chain begins at the round's root. -/
def judgeInput (ctx : Context) (extended : CalendarChain) : Except ChainError Verdict := do
  let root ← ctx.signature.rootHash
  return .ofCheck (extended.inputHash = root)

/-- The chain extended to the target begins at the round's root. -/
def demandTargetInput (ctx : Context) (target : ExtensionTarget) : Demand :=
  ctx.demandTarget target fun _ extended => ctx.judgeInput extended

/-- The database's chain leads to the same root as the signature's own. -/
def demandDatabaseRoot (ctx : Context) : Demand :=
  match ctx.signature.calendarChain with
  | none => .settled (.ok .notApplicable)
  | some calendar =>
    .extended (some calendar.publicationTime) fun extended => do
      let theirs ← extended.output
      let ours ← calendar.output
      return .ofCheck (theirs = ours)

/-- The database's chain begins at the signature's time. -/
def judgeTime (ctx : Context) (extended : CalendarChain) : Except ChainError Verdict :=
  .ok (.ofCheck (extended.aggregationTime = ctx.signature.aggregationTime))

end Context

namespace Rule

/-- What the rule needs in a context. -/
def demand (ctx : Context) : Rule → Demand
  | documentHashAlgorithm => .settled (.ok ctx.documentAlgorithmVerdict)
  | documentHash => .settled (.ok ctx.documentHashVerdict)
  | inputHashLevel => .settled (.ok ctx.inputLevelVerdict)
  | inputHashAlgorithmDeprecated => .settled (.ok ctx.signature.inputAlgorithmVerdict)
  | timestampInternalAlgorithmsDeprecated =>
    .settled (.ok ctx.signature.timestampInternalAlgorithmsVerdict)
  | timestampOutputAlgorithmDeprecated =>
    .settled (.ok ctx.signature.timestampOutputAlgorithmVerdict)
  | aggregationChainInputHash => .settled ctx.signature.timestampOutputVerdict
  | timestampRecordIndex => .settled (.ok ctx.signature.timestampIndexVerdict)
  | timestampRecordTime => .settled (.ok ctx.signature.timestampTimeVerdict)
  | aggregationChainIndexSuccessor => .settled (indexSuccessorVerdict ctx.signature.chains)
  | aggregationChainMetadata => .settled (.ok ctx.signature.metadataVerdict)
  | aggregationAlgorithmDeprecated => .settled (.ok ctx.signature.aggregationAlgorithmVerdict)
  | aggregationChainConsistency => .settled (consistencyVerdict 0 ctx.signature.chains)
  | aggregationChainTime => .settled (.ok ctx.signature.aggregationTimeVerdict)
  | aggregationChainIndex => .settled (indexVerdict ctx.signature.chains)
  | calendarInputHash => .settled ctx.signature.calendarInputVerdict
  | calendarAggregationTime => .settled ctx.signature.calendarTimeVerdict
  | calendarRegistrationTime => .settled ctx.signature.registrationVerdict
  | calendarAlgorithmObsolete => .settled ctx.signature.calendarAlgorithmVerdict
  | publicationRecordTime =>
    .settled (ctx.signature.recordTimeVerdict ctx.signature.publishedRoot)
  | publicationRecordHash =>
    .settled (ctx.signature.recordHashVerdict ctx.signature.publishedRoot)
  | authenticationRecordTime =>
    .settled (ctx.signature.recordTimeVerdict ctx.signature.authenticatedRoot)
  | authenticationRecordHash =>
    .settled (ctx.signature.recordHashVerdict ctx.signature.authenticatedRoot)
  | calendarChainExists => .settled (.ok (.ofPresence ctx.signature.calendarChain.isSome))
  | authenticationRecordExists =>
    .settled (.ok (.ofPresence ctx.signature.authenticationRecord.isSome))
  | publicationRecordExists =>
    .settled (.ok (.ofPresence ctx.signature.publicationRecord.isSome))
  | extendingPermitted => .settled (.ok (.ofPresence ctx.canExtend))
  | certificateExists => .settled (.ok ctx.certificateVerdict)
  | certificateValidity => .settled (.ok ctx.certificateValidityVerdict)
  | authenticationRecordSignature => .settled (.ok ctx.recordSignatureVerdict)
  | lookupContainsSignaturePublication =>
    .settled (.ok (.ofPresence ctx.trustedPublication?.isSome))
  | lookupSignaturePublicationHash => .settled (.ok ctx.trustedHashVerdict)
  | lookupContainsNewerPublication => .settled (.ok (.ofPresence (ctx.target? .lookup).isSome))
  | extendedToLookupRootHash => ctx.demandTargetRoot .lookup
  | extendedToLookupTime => ctx.demandTargetTime .lookup
  | extendedToLookupInputHash => ctx.demandTargetInput .lookup
  | userPublicationExists => .settled (.ok (.ofPresence ctx.userPublication.isSome))
  | userPublicationTimeMatches =>
    .settled (.ok (.ofPresence ctx.comparablePublications?.isSome))
  | userPublicationHash => .settled (.ok ctx.userHashVerdict)
  | userPublicationNewer => .settled (.ok ctx.userNewerVerdict)
  | extendedToUserRootHash => ctx.demandTargetRoot .user
  | extendedToUserTime => ctx.demandTargetTime .user
  | extendedToUserInputHash => ctx.demandTargetInput .user
  | calendarExtendedRootHash => ctx.demandDatabaseRoot
  | calendarExtendedInputHash => .extended ctx.signature.publicationTime ctx.judgeInput
  | calendarExtendedAggregationTime => .extended ctx.signature.publicationTime ctx.judgeTime

/-- A verdict under the rule's name. -/
def report (rule : Rule) : Except ChainError Verdict → Except VerificationError RuleResult
  | .ok verdict => .ok { rule, verdict }
  | .error cause => .error (.chain cause)

/-- Evaluates the rule. -/
def verify (rule : Rule) (ctx : Context) (run : Run) :
    Except VerificationError RuleResult × Run :=
  match rule.demand ctx with
  | .settled verdict => (rule.report verdict, run)
  | .extended key judge =>
    match ctx.extendedChain key run with
    | (.error fatal, run) => (.error fatal, run)
    | (.ok (.error _), run) => (.ok { rule, verdict := .anchorUnavailable }, run)
    | (.ok (.ok chain), run) => (rule.report (judge chain), run)

end Rule

end Keyless
