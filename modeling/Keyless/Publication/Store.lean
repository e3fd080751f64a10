/-
Trusted publications and certificates held in memory.
-/
import Keyless.Certificate.Entry

namespace Keyless

/-- The time of a publication. -/
def PublicationRecord.time (publication : PublicationRecord) : Time :=
  publication.publicationData.publicationTime

/-- Publications in the order of their times, and certificates. -/
structure PublicationStore where
  publications : List PublicationRecord
  certificates : List EcdsaCertificate

namespace PublicationStore

/-- A store of publications given in any order; those of one time keep theirs. -/
def ofRecords (publications : List PublicationRecord) (certificates : List EcdsaCertificate) :
    PublicationStore :=
  { publications := publications.mergeSort fun a b => a.time ≤ b.time, certificates }

/-- The first publication made exactly at a time. -/
def publicationAt (store : PublicationStore) (time : Time) : Option PublicationRecord :=
  store.publications.find? (·.time = time)

/-- The earliest publication made at a time or later. -/
def publicationFrom (store : PublicationStore) (time : Time) : Option PublicationRecord :=
  store.publications.find? (time ≤ ·.time)

/-- The first certificate with an id. -/
def certificate (store : PublicationStore) (id : Bytes) : Option EcdsaCertificate :=
  store.certificates.find? (·.id = id)

/-- What a verifier looks up in the store. -/
def lookup (store : PublicationStore) : PublicationsLookup :=
  { publicationAt := store.publicationAt
    publicationFrom := store.publicationFrom
    certificate := fun id => (store.certificate id).map EcdsaCertificate.toCertificate }

end PublicationStore

end Keyless
