/-
What an authentication record carries, and who sees to it.

Signature data put together from its parts has a type, a value and a certificate, none of
them empty (`SignatureData.isComplete_iff`).  Nothing else asks for that.  The check of a
signature's parts sees whether there is a record and not what is in it, so a record with
any data whatever can be part of a signature (`SignatureParts.check_resigned`), and such a
signature is read from a document as well.

After that the record is not touched any more.  Putting chains below a signature and
applying levels leave it as it is, and extending drops it, so whatever becomes of a
signature, its record is complete if it was at the start, or else it is gone
(`Signature.hasCompleteRecord_iff`).
-/
import Keyless.Proofs.Document
import Keyless.Proofs.Signature.Reshaping
import Keyless.Proofs.Verification.Extending

namespace Keyless

namespace SignatureData

/-- The data has a type, a value and a certificate. -/
structure IsComplete (data : SignatureData) : Prop where
  signatureType : data.signatureType ≠ ""
  signatureValue : data.signatureValue ≠ []
  certificateId : data.certificateId ≠ []

theorem ofParts_eq_ok_iff {signatureType : String} {signatureValue certificateId : Bytes}
    {data : SignatureData} :
    ofParts signatureType signatureValue certificateId = .ok data ↔
      data = { signatureType, signatureValue, certificateId, certificateRepositoryUri := none } ∧
        data.IsComplete := by
  unfold ofParts
  by_cases htype : signatureType = ""
  · refine iff_of_false (by simp [htype]) ?_
    rintro ⟨rfl, complete⟩
    exact complete.signatureType htype
  by_cases hvalue : signatureValue = []
  · refine iff_of_false (by simp [htype, hvalue]) ?_
    rintro ⟨rfl, complete⟩
    exact complete.signatureValue hvalue
  by_cases hid : certificateId = []
  · refine iff_of_false (by simp [htype, hvalue, hid]) ?_
    rintro ⟨rfl, complete⟩
    exact complete.certificateId hid
  · simp only [htype, hvalue, hid, if_false, Except.ok.injEq]
    refine ⟨?_, fun h => h.1.symm⟩
    rintro rfl
    exact ⟨rfl, htype, hvalue, hid⟩

/-- **Data is complete when it could be put together from its parts.** -/
theorem isComplete_iff {data : SignatureData} :
    data.IsComplete ↔ ∃ made,
      ofParts data.signatureType data.signatureValue data.certificateId = .ok made := by
  simp only [ofParts_eq_ok_iff, exists_eq_left]
  exact ⟨fun h => ⟨h.1, h.2, h.3⟩, fun h => ⟨h.1, h.2, h.3⟩⟩

end SignatureData

/-! ### Records with other data -/

/-- The parts with this data in the authentication record, if there is one. -/
def SignatureParts.resigned (parts : SignatureParts) (data : SignatureData) : SignatureParts :=
  { parts with
    authenticationRecord :=
      parts.authenticationRecord.map fun record => { record with signatureData := data } }

/-- **The check does not see what is in the record.** -/
theorem SignatureParts.check_resigned (parts : SignatureParts) (data : SignatureData) :
    (parts.resigned data).check = parts.check := by
  have hrecords : (parts.resigned data).checkRecords = parts.checkRecords := by
    simp only [checkRecords, resigned, Option.isSome_map]
  unfold check
  rw [hrecords]
  rfl

namespace Signature

/-- The signature with this data in its authentication record, if it has one. -/
def resigned (s : Signature) (data : SignatureData) : Signature where
  parts := s.parts.resigned data
  check_parts := (s.parts.check_resigned data).trans s.check_parts

/-- The authentication record, if there is one, has complete data. -/
def HasCompleteRecord (s : Signature) : Prop :=
  ∀ record, s.authenticationRecord = some record → record.signatureData.IsComplete

theorem hasCompleteRecord_resigned_iff {s : Signature} {data : SignatureData} :
    (s.resigned data).HasCompleteRecord ↔ s.authenticationRecord = none ∨ data.IsComplete := by
  have hrecord : (s.resigned data).authenticationRecord =
      s.authenticationRecord.map fun record => { record with signatureData := data } := rfl
  unfold HasCompleteRecord
  rw [hrecord]
  cases s.authenticationRecord <;> simp

end Signature

/-! ### Reshaping -/

/-- Whether a signature is extended. -/
def Reshaping.isExtend : Reshaping → Bool
  | extend .. => true
  | _ => false

namespace Signature

variable {s s' : Signature} {step : Reshaping}

/-- **A step drops the record or leaves it as it is.** -/
theorem authenticationRecord_of_apply (made : step.apply s = .ok s') :
    s'.authenticationRecord = if step.isExtend then none else s.authenticationRecord := by
  cases step with
  | prepend chain => exact (others_of_prepend made).2.1
  | applyLevel level =>
      rcases applyLevel_eq_ok_iff.mp made with ⟨-, rfl⟩ | ⟨-, correction, -, hparts⟩
      · rfl
      · rw [authenticationRecord, hparts]
        rfl
  | extend extender publication log =>
      obtain ⟨-, _, -, -, chain, -, -, hparts⟩ := extend_eq_ok_iff.mp (Prod.ext made rfl)
      rw [authenticationRecord, hparts]
      rfl

/-- So do any number of steps: the record is gone once one of them has extended. -/
theorem authenticationRecord_reshaped (steps : List Reshaping) : ∀ s : Signature,
    (s.reshaped steps).authenticationRecord =
      if (s.successes steps).any Reshaping.isExtend then none else s.authenticationRecord := by
  induction steps with
  | nil =>
      intro s
      rfl
  | cons step rest ih =>
      intro s
      rw [reshaped, successes]
      cases hmade : step.apply s with
      | error cause => exact ih s
      | ok s' =>
          simp only [ih s', authenticationRecord_of_apply hmade, List.any_cons, Bool.or_eq_true]
          by_cases hextend : step.isExtend = true <;> simp [hextend]

theorem hasCompleteRecord_reshaped_iff (s : Signature) (steps : List Reshaping) :
    (s.reshaped steps).HasCompleteRecord ↔
      (s.successes steps).any Reshaping.isExtend = true ∨ s.HasCompleteRecord := by
  unfold HasCompleteRecord
  rw [authenticationRecord_reshaped]
  by_cases hextend : (s.successes steps).any Reshaping.isExtend = true <;> simp [hextend]

/--
**When a record is complete.**  Whatever data stands in a signature's authentication
record, the signature can be put together from its parts, and it is read back from its
document, as a value and as a text.  After any reshapings its record is complete exactly
when there never was one, when it has been dropped by extending, or when its data could
have been put together from type, value and certificate.
-/
theorem hasCompleteRecord_iff (s : Signature) (data : SignatureData) (steps : List Reshaping) :
    ofParts (s.parts.resigned data) = .ok (s.resigned data) ∧
      Json.decodeSorted ofJson (s.resigned data).toJson = .ok (s.resigned data) ∧
      ofJson (s.resigned data).toJson = .ok (s.resigned data) ∧
      (((s.resigned data).reshaped steps).HasCompleteRecord ↔
        s.authenticationRecord = none ∨
        ((s.resigned data).successes steps).any Reshaping.isExtend = true ∨
        ∃ made, SignatureData.ofParts data.signatureType data.signatureValue data.certificateId =
          .ok made) := by
  refine ⟨ofParts_eq_ok_iff.mpr rfl, readsBack.roundTrips.sorted _, readsBack.roundTrips.written _,
    ?_⟩
  rw [hasCompleteRecord_reshaped_iff, hasCompleteRecord_resigned_iff,
    SignatureData.isComplete_iff]
  exact or_left_comm

/-- A signature whose record has neither type, value nor certificate. -/
def unsignedSignature : Signature where
  parts :=
    { chains := twoStoreys (.ofUInt32 1000)
      calendarChain := some bareChain
      authenticationRecord :=
        some
          { publicationData := bareRoot
            signatureData :=
              { signatureType := "", signatureValue := [], certificateId := []
                certificateRepositoryUri := none } }
      publicationRecord := none
      timestampRecord := none }
  check_parts := rfl

/-- A document is read as a signature with a record whose data cannot be put together. -/
theorem ofJson_unsignedSignature :
    ∃ s record, Json.decodeSorted ofJson unsignedSignature.toJson = .ok s ∧
      s.authenticationRecord = some record ∧ record.signatureData.signatureType = "" ∧
      SignatureData.ofParts record.signatureData.signatureType record.signatureData.signatureValue
        record.signatureData.certificateId = .error (.invalidSignature .emptyType) :=
  ⟨unsignedSignature, _, readsBack.roundTrips.sorted _, rfl, rfl, rfl⟩

end Signature

end Keyless
