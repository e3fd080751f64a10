/-
The JSON forms of publications and authentication records.
-/
import Keyless.Document.Imprint
import Keyless.Publication

namespace Keyless

namespace PublicationData

/-- Time and hash. -/
def toJson (data : PublicationData) : Json :=
  .object [("publication_time", data.publicationTime.toJson),
    ("published_hash", data.publishedHash.toJson)]

/-- The fields of publication data. -/
def record : Record PublicationData :=
  PublicationData.mk <$> .required "publication_time" Json.toTime
    <*> .required "published_hash" Imprint.ofJson

/-- Reads publication data. -/
def ofJson : Json → Except DecodeError PublicationData := record.decode

end PublicationData

namespace PublicationRecord

/-- A list field that is left out when empty. -/
def listField (key : String) (values : List String) : List (String × Json) :=
  if values.isEmpty then [] else [(key, .list .string values)]

/-- Empty lists are left out. -/
def toJson (publication : PublicationRecord) : Json :=
  .object (("publication_data", publication.publicationData.toJson) ::
    (listField "references" publication.references ++
      listField "repository_uris" publication.repositoryUris))

/-- The fields of a publication; the lists may be missing. -/
def record : Record PublicationRecord :=
  PublicationRecord.mk <$> .required "publication_data" PublicationData.ofJson
    <*> .defaulted "references" (Json.toList Json.toText) []
    <*> .defaulted "repository_uris" (Json.toList Json.toText) []

/-- Reads a publication. -/
def ofJson : Json → Except DecodeError PublicationRecord := record.decode

end PublicationRecord

namespace SignatureData

/-- An absent repository is left out. -/
def toJson (data : SignatureData) : Json :=
  .object ([("signature_type", .string data.signatureType),
      ("signature_value", data.signatureValue.toJson),
      ("certificate_id", data.certificateId.toJson)] ++
    Json.optionalField "certificate_repository_uri" .string data.certificateRepositoryUri)

/-- The fields of signature data.  None of them has to be more than empty. -/
def record : Record SignatureData :=
  SignatureData.mk <$> .required "signature_type" Json.toText
    <*> .required "signature_value" Json.toOctets
    <*> .required "certificate_id" Json.toOctets
    <*> .optional "certificate_repository_uri" Json.toText

/-- Reads signature data. -/
def ofJson : Json → Except DecodeError SignatureData := record.decode

end SignatureData

namespace AuthenticationRecord

/-- The publication data and its signature. -/
def toJson (authentication : AuthenticationRecord) : Json :=
  .object [("publication_data", authentication.publicationData.toJson),
    ("signature_data", authentication.signatureData.toJson)]

/-- The fields of an authentication record. -/
def record : Record AuthenticationRecord :=
  AuthenticationRecord.mk <$> .required "publication_data" PublicationData.ofJson
    <*> .required "signature_data" SignatureData.ofJson

/-- Reads an authentication record. -/
def ofJson : Json → Except DecodeError AuthenticationRecord := record.decode

end AuthenticationRecord

end Keyless
