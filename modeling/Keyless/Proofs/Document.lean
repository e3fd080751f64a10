/-
Documents are read back as they were written.

Writing and reading are defined apart, type by type: absent fields and empty lists are
left out, imprints and octets are hexadecimal, a sibling is an object whose key says of
which kind it is, and a signature is checked again when it is read.  Here the two are
shown to belong together (`Signature.json_roundTrips`).  A record's part is always the
same: its fields in the order in which they are declared, each with the reason why it is
read back (`Json.ReadsBack`).  That no two fields share a key is decided once for a record;
that each is read as what was written under its key is checked as it is put together.

A signature passed its check when it was made, so what is read back passes it again.
-/
import Keyless.Document.Signature
import Keyless.Proofs.Hex
import Keyless.Proofs.Json.Form
import Keyless.Proofs.Signature

namespace Keyless

open Json (IsArrangement ReadsBack readsBack_text readsBack_uint64 readsBack_uint8)

/-! ### Words -/

theorem Time.readsBack : ReadsBack Time.toJson Json.toTime where
  back arrange h time := by
    rw [toJson, h.int, Json.toTime, Json.toInteger]
    simp only [bind, Except.bind, ofSeconds?_seconds]
    rfl
  refuses := ⟨⟨_, rfl⟩, fun _ _ => ⟨_, rfl⟩⟩

theorem Bytes.readsBack : ReadsBack Bytes.toJson Json.toOctets where
  back arrange h octets := by
    rw [toJson, h.string, Json.toOctets, Json.toText]
    simp only [bind, Except.bind, Hex.decode_encode]
    rfl
  refuses := ⟨⟨_, rfl⟩, fun _ _ => ⟨_, rfl⟩⟩

theorem Imprint.readsBack : ReadsBack Imprint.toJson Imprint.ofJson where
  back arrange h imprint := by
    rw [toJson, h.string, ofJson, Json.toText]
    simp only [bind, Except.bind, ofText_text]
    rfl
  refuses := ⟨⟨_, rfl⟩, fun _ _ => ⟨_, rfl⟩⟩

/-- A name is read back when it is the one that its choice is found under. -/
theorem Json.readsBack_name {α : Type} {name : α → String} {choices : List (String × α)}
    (found : ∀ a, Json.toName.pick choices (name a) = .ok a) :
    ReadsBack (fun a => .string (name a)) (Json.toName choices) where
  back arrange h a := by
    rw [h.string]
    exact found a
  refuses := ⟨⟨_, rfl⟩, fun _ _ => ⟨_, rfl⟩⟩

theorem HashAlgorithm.readsBack : ReadsBack HashAlgorithm.toJson HashAlgorithm.ofJson :=
  Json.readsBack_name fun a => by cases a <;> rfl

theorem Direction.readsBack : ReadsBack Direction.toJson Direction.ofJson where
  back arrange h direction := by
    cases direction with
    | left =>
        rw [toJson, h.string]
        rfl
    | right =>
        rw [toJson, h.string]
        rfl
  refuses := ⟨⟨_, rfl⟩, fun _ _ => ⟨_, rfl⟩⟩

/-! ### Chains -/

open Record (Reads)

theorem Metadata.readsBack : ReadsBack Metadata.toJson Metadata.ofJson :=
  Record.readsBack (by decide) fun m =>
    ((((Reads.first readsBack_text Metadata.mk m.clientId).optional readsBack_text m.machineId
      ).optional readsBack_uint64 m.sequenceNumber).optional readsBack_uint64 m.requestTime
      ).optional readsBack_uint8 m.padding

/-- An object with a single field is arranged by arranging the field's value. -/
theorem Json.IsArrangement.single {arrange : Json → Json} (h : IsArrangement arrange) (key : String)
    (value : Json) : arrange (.object [(key, value)]) = .object [(key, arrange value)] := by
  obtain ⟨fields, heq, perm⟩ := h.object [(key, value)] (by simp)
  rw [heq, List.singleton_perm.mp perm]

/-- An object with a single field, whose key is a name, is the choice of that name. -/
theorem Json.toChoice_single {α : Type} {plain : String → Except DecodeError α}
    {decode : String → Json → Except DecodeError α} {name : String} {value : Json}
    (named : ∀ k w, value ≠ .nameless k w) :
    Json.toChoice plain decode (.object [(name, value)]) = decode name value := by
  rw [Json.toChoice]
  exact named

theorem Sibling.readsBack : ReadsBack Sibling.toJson Sibling.ofJson where
  back arrange h sibling := by
    cases sibling with
    | imprint hash =>
        rw [toJson, h.single, ofJson, Json.toChoice_single (Imprint.readsBack.named h hash),
          if_pos rfl, Imprint.readsBack.back arrange h hash]
        rfl
    | metadata identity =>
        rw [toJson, h.single, ofJson, Json.toChoice_single (Metadata.readsBack.named h identity),
          if_neg (by decide), if_pos rfl, Metadata.readsBack.back arrange h identity]
        rfl
  refuses := ⟨⟨_, rfl⟩, fun _ _ => ⟨_, rfl⟩⟩

theorem Link.readsBack : ReadsBack Link.toJson Link.ofJson :=
  Record.readsBack (by decide) fun link =>
    ((Reads.first Direction.readsBack Link.mk link.direction).required Sibling.readsBack
      link.sibling).defaulted readsBack_uint64 link.levelCorrection

theorem AggregationChain.readsBack : ReadsBack AggregationChain.toJson AggregationChain.ofJson :=
  Record.readsBack (by decide) fun chain =>
    ((((Reads.first Imprint.readsBack AggregationChain.mk chain.inputHash).required Time.readsBack
      chain.aggregationTime).required readsBack_uint64.list chain.index).required
      Link.readsBack.list chain.links).required HashAlgorithm.readsBack chain.algorithm

theorem CalendarLink.readsBack : ReadsBack CalendarLink.toJson CalendarLink.ofJson :=
  Record.readsBack (by decide) fun link =>
    (Reads.first Direction.readsBack CalendarLink.mk link.direction).required Imprint.readsBack
      link.sibling

theorem CalendarChain.readsBack : ReadsBack CalendarChain.toJson CalendarChain.ofJson :=
  Record.readsBack (by decide) fun chain =>
    (((Reads.first Imprint.readsBack CalendarChain.mk chain.inputHash).required Time.readsBack
      chain.aggregationTime).required Time.readsBack chain.publicationTime).required
      CalendarLink.readsBack.list chain.links

/-! ### Records -/

theorem PublicationData.readsBack : ReadsBack PublicationData.toJson PublicationData.ofJson :=
  Record.readsBack (by decide) fun data =>
    (Reads.first Time.readsBack PublicationData.mk data.publicationTime).required
      Imprint.readsBack data.publishedHash

theorem PublicationRecord.readsBack :
    ReadsBack PublicationRecord.toJson PublicationRecord.ofJson :=
  Record.readsBack (by decide) fun publication =>
    ((Reads.first PublicationData.readsBack PublicationRecord.mk publication.publicationData
      ).listed readsBack_text publication.references).listed readsBack_text
      publication.repositoryUris

theorem SignatureData.readsBack : ReadsBack SignatureData.toJson SignatureData.ofJson :=
  Record.readsBack (by decide) fun data =>
    (((Reads.first readsBack_text SignatureData.mk data.signatureType).required Bytes.readsBack
      data.signatureValue).required Bytes.readsBack data.certificateId).optional readsBack_text
      data.certificateRepositoryUri

theorem AuthenticationRecord.readsBack :
    ReadsBack AuthenticationRecord.toJson AuthenticationRecord.ofJson :=
  Record.readsBack (by decide) fun authentication =>
    (Reads.first PublicationData.readsBack AuthenticationRecord.mk authentication.publicationData
      ).required SignatureData.readsBack authentication.signatureData

theorem TimestampRecord.readsBack : ReadsBack TimestampRecord.toJson TimestampRecord.ofJson :=
  Record.readsBack (by decide) fun r =>
    ((((((((Reads.first Time.readsBack TimestampRecord.mk r.aggregationTime).required
      readsBack_uint64.list r.index).required Imprint.readsBack r.inputHash).required
      Bytes.readsBack r.infoPrefix).required Bytes.readsBack r.infoSuffix).required
      HashAlgorithm.readsBack r.infoAlgorithm).required Bytes.readsBack r.attributesPrefix
      ).required Bytes.readsBack r.attributesSuffix).required HashAlgorithm.readsBack
      r.attributesAlgorithm

/-! ### Signatures -/

theorem SignatureParts.readsBack : ReadsBack SignatureParts.toJson SignatureParts.ofJson :=
  Record.readsBack (by decide) fun parts =>
    ((((Reads.first AggregationChain.readsBack.list SignatureParts.mk parts.chains).optional
      CalendarChain.readsBack parts.calendarChain).optional AuthenticationRecord.readsBack
      parts.authenticationRecord).optional PublicationRecord.readsBack parts.publicationRecord
      ).optional TimestampRecord.readsBack parts.timestampRecord

theorem Signature.readsBack : ReadsBack Signature.toJson Signature.ofJson where
  back arrange h s := by
    have hchecked : ofParts s.parts = .ok s := ofParts_eq_ok_iff.mpr rfl
    rw [toJson, ofJson, SignatureParts.readsBack.back arrange h s.parts]
    simp only [bind, Except.bind, hchecked]
    rfl
  refuses := ⟨⟨_, rfl⟩, fun _ _ => ⟨_, rfl⟩⟩

/-! ### Round trips -/

namespace Json

variable {α : Type}

/-- Writing and reading belong together. -/
structure RoundTrips (form : α → Json) (read : Json → Except DecodeError α) : Prop where
  /-- What is written is read back as it was written, as in a text. -/
  written : ∀ a, read (form a) = .ok a
  /-- It is read back as a value, whose objects have their fields sorted. -/
  sorted : ∀ a, decodeSorted read (form a) = .ok a
  /-- It is read back whatever becomes of the order of the fields. -/
  arranged : ∀ arrange, IsArrangement arrange → ∀ a, read (arrange (form a)) = .ok a
  /-- What was read from any value is written so that it is read again, and then written the
  same. -/
  again : ∀ value a, decodeSorted read value = .ok a →
    ∃ a', decodeSorted read (form a) = .ok a' ∧ a' = a ∧ form a' = form a

theorem ReadsBack.roundTrips {form : α → Json} {read : Json → Except DecodeError α}
    (h : ReadsBack form read) : RoundTrips form read := by
  have hsorted : ∀ a, decodeSorted read (form a) = .ok a := by
    intro a
    rw [decodeSorted, h.back _ isArrangement_sorted a]
    rfl
  exact
    { written := h.back id isArrangement_id
      sorted := hsorted
      arranged := h.back
      again := fun _ a _ => ⟨a, hsorted a, rfl, rfl⟩ }

end Json

/--
**Documents are read back as they were written**, a signature and everything that it is
made of.
-/
theorem Signature.json_roundTrips :
    Json.RoundTrips Signature.toJson Signature.ofJson ∧
      Json.RoundTrips AggregationChain.toJson AggregationChain.ofJson ∧
      Json.RoundTrips CalendarChain.toJson CalendarChain.ofJson ∧
      Json.RoundTrips Link.toJson Link.ofJson ∧
      Json.RoundTrips CalendarLink.toJson CalendarLink.ofJson ∧
      Json.RoundTrips Metadata.toJson Metadata.ofJson ∧
      Json.RoundTrips PublicationRecord.toJson PublicationRecord.ofJson ∧
      Json.RoundTrips AuthenticationRecord.toJson AuthenticationRecord.ofJson ∧
      Json.RoundTrips TimestampRecord.toJson TimestampRecord.ofJson :=
  ⟨Signature.readsBack.roundTrips, AggregationChain.readsBack.roundTrips,
    CalendarChain.readsBack.roundTrips, Link.readsBack.roundTrips,
    CalendarLink.readsBack.roundTrips, Metadata.readsBack.roundTrips,
    PublicationRecord.readsBack.roundTrips, AuthenticationRecord.readsBack.roundTrips,
    TimestampRecord.readsBack.roundTrips⟩

end Keyless
