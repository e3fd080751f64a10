/-
The built-in policies.

Each of them begins with the rules of internal consistency and goes on with
those of one kind of trust anchor.
-/
import Keyless.Verification.Policy

namespace Keyless

namespace Policy

/-- The rules of internal consistency. -/
def internalRules : List Rule := [
  .documentHashAlgorithm, .documentHash, .inputHashLevel, .inputHashAlgorithmDeprecated,
  .timestampInternalAlgorithmsDeprecated, .timestampOutputAlgorithmDeprecated,
  .aggregationChainInputHash, .timestampRecordIndex, .timestampRecordTime,
  .aggregationChainIndexSuccessor, .aggregationChainMetadata, .aggregationAlgorithmDeprecated,
  .aggregationChainConsistency, .aggregationChainTime, .aggregationChainIndex,
  .calendarInputHash, .calendarAggregationTime, .calendarRegistrationTime,
  .calendarAlgorithmObsolete, .publicationRecordTime, .publicationRecordHash,
  .authenticationRecordTime, .authenticationRecordHash]

/-- The internal rules and further ones. -/
def internalAnd (name : String) (further : List Rule) : Policy :=
  ofRules name (internalRules ++ further)

/-- Internal consistency alone, which needs no trust anchor. -/
def internal : Policy := internalAnd "internal" []

/-- The signed calendar root. -/
def keyBased : Policy := internalAnd "key-based" [
  .calendarChainExists, .authenticationRecordExists, .certificateExists, .certificateValidity,
  .authenticationRecordSignature]

/-- The signature's publication among the trusted ones. -/
def publicationsFile : Policy := internalAnd "publications-file" [
  .publicationRecordExists, .lookupContainsSignaturePublication, .lookupSignaturePublicationHash]

/-- The earliest trusted publication after signing. -/
def publicationsFileExtending : Policy := internalAnd "publications-file-extending" [
  .lookupContainsNewerPublication, .extendingPermitted, .extendedToLookupRootHash,
  .extendedToLookupTime, .extendedToLookupInputHash]

/-- The user's publication as the signature's own. -/
def userPublication : Policy := internalAnd "user-publication" [
  .userPublicationExists, .userPublicationTimeMatches, .userPublicationHash]

/-- The user's publication, made after signing. -/
def userPublicationExtending : Policy := internalAnd "user-publication-extending" [
  .userPublicationExists, .userPublicationNewer, .extendingPermitted, .extendedToUserRootHash,
  .extendedToUserTime, .extendedToUserInputHash]

/-- The calendar database. -/
def calendarBased : Policy := internalAnd "calendar-based" [
  .extendingPermitted, .calendarExtendedRootHash, .calendarExtendedInputHash,
  .calendarExtendedAggregationTime]

end Policy

/-- A policy that can be chosen by name, with its fallbacks. -/
inductive PolicyKind where
  | internal
  | keyBased
  | publicationsFile
  | userPublication
  | calendarBased
  /-- Key-based, and else by publications. -/
  | standard
deriving DecidableEq, Repr

namespace PolicyKind

/-- Every kind. -/
def all : List PolicyKind :=
  [internal, keyBased, publicationsFile, userPublication, calendarBased, standard]

/-- The name by which the kind is chosen. -/
def name : PolicyKind → String
  | internal => "internal"
  | keyBased => "key-based"
  | publicationsFile => "publications-file"
  | userPublication => "user-publication"
  | calendarBased => "calendar-based"
  | standard => "default"

/-- The kind with a name. -/
def ofName? (name : String) : Option PolicyKind := all.find? (·.name = name)

end PolicyKind

namespace PolicyChain

def internal : PolicyChain := single .internal
def keyBased : PolicyChain := single .keyBased
def publicationsFileExtending : PolicyChain := single .publicationsFileExtending
def userPublicationExtending : PolicyChain := single .userPublicationExtending
def calendarBased : PolicyChain := single .calendarBased

/-- The signature's publication, or else extending to a trusted one. -/
def publicationsFile : PolicyChain := withFallback .publicationsFile publicationsFileExtending

/-- The user's publication as it is, or else extending to it. -/
def userPublication : PolicyChain := withFallback .userPublication userPublicationExtending

/-- The signed calendar root, or else publications. -/
def standard : PolicyChain := withFallback .keyBased publicationsFile

/-- Every built-in chain. -/
def builtIn : List PolicyChain :=
  [internal, keyBased, publicationsFile, publicationsFileExtending, userPublication,
    userPublicationExtending, calendarBased, standard]

end PolicyChain

/-- The policies of a kind. -/
def PolicyKind.chain : PolicyKind → PolicyChain
  | .internal => .internal
  | .keyBased => .keyBased
  | .publicationsFile => .publicationsFile
  | .userPublication => .userPublication
  | .calendarBased => .calendarBased
  | .standard => .standard

end Keyless
