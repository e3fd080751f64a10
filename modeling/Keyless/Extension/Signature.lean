/-
Extending signatures to publications.
-/
import Keyless.Extension.Extender
import Keyless.Signature

namespace Keyless

namespace Signature

/-- Whether an extended chain keeps the past that the signature's own calendar chain has. -/
def agreesWith (s : Signature) (extended : CalendarChain) : Bool :=
  s.calendarChain.all (·.keepsPast extended)

/-- Refuses an extended chain that departs from the signature's own. -/
def checkExtension (s : Signature) (extended : CalendarChain) : Except ChainError Unit :=
  if s.agreesWith extended then .ok () else .error .inconsistentCalendarChain

/-- The request for a publication, which must not be before the signature. -/
def extensionRequest (s : Signature) (publication : PublicationRecord) :
    Except ChainError ExtensionRequest :=
  let publicationTime := publication.publicationData.publicationTime
  if publicationTime < s.aggregationTime then
    .error (.publicationBeforeSignature publicationTime s.aggregationTime)
  else .ok { aggregationTime := s.aggregationTime, publicationTime := some publicationTime }

/-- The signature with an extended chain, which leads to a publication. -/
def extendedBy (s : Signature) (publication : PublicationRecord) (extended : CalendarChain) :
    Except ChainError Signature := do
  s.checkExtension extended
  ofParts
    { s.parts with
      calendarChain := some extended
      publicationRecord := some publication
      authenticationRecord := none }

/--
Extends the signature to a publication, and gives the service's log with the
result.  The chains and the legacy record stay; an authentication record goes.
-/
def extend (s : Signature) (extender : Extender) (publication : PublicationRecord)
    (log : List ExtensionRequest) : Except ChainError Signature × List ExtensionRequest :=
  match s.extensionRequest publication with
  | .error refusal => (.error refusal, log)
  | .ok request =>
    let (answer, log) := extender.ask log request
    match answer.result with
    | .error cause => (.error (.extension cause), log)
    | .ok extended => (s.extendedBy publication extended, log)

end Signature

end Keyless
