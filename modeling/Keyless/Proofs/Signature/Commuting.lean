/-
Extending commutes with what is done to a signature on the spot.

A chain is put below a signature, or a level applied to it, where the document is; a
service far away extends it.  The former look at the aggregation chains alone and write
nothing else (`Signature.IsLocal`).  The latter writes the calendar chain and the records,
and of the aggregation chains it reads the round, which operations on the spot leave as it
is.  So it does not matter which comes first.

Each order puts another signature together on the way, and its parts have to pass the
check.  They do, because the check looks at the aggregation chains and at everything else
apart: a signature may take over the chains of any other (`Signature.exists_withChainsOf`).
-/
import Keyless.Proofs.Signature.Extending
import Keyless.Proofs.Signature.Reshaping

namespace Keyless

namespace Signature

variable {s s' t t' : Signature}

/-! ### Chains from one signature, everything else from another -/

/-- The parts with the aggregation chains of another signature. -/
def withChainsOf (s t : Signature) : SignatureParts := { s.parts with chains := t.chains }

/-- They make a signature, as each half of them has been checked in its own. -/
theorem exists_withChainsOf (s t : Signature) :
    ∃ u : Signature, u.parts = s.withChainsOf t :=
  s.exists_withChains t.chains_ne_nil t.check_of_mem_chains

/-! ### Operations on the spot -/

/-- The operation looks at the aggregation chains alone, writes nothing else, and leaves the
signature in its round. -/
structure IsLocal (act : Signature → Except ChainError Signature) : Prop where
  writes : ∀ {s s'}, act s = .ok s' → s'.parts = s.withChainsOf s'
  round : ∀ {s s'}, act s = .ok s' → s'.aggregationTime = s.aggregationTime
  /-- What it makes of the chains in one signature it makes of the same chains in another. -/
  reads : ∀ {s s' t t'}, act s = .ok s' → t.chains = s.chains → t'.parts = t.withChainsOf s' →
    act t = .ok t'

theorem isLocal_prepend (chain : AggregationChain) : IsLocal fun s => s.prepend chain where
  writes made := by
    obtain ⟨-, _, _, -, -, -, -, hparts⟩ := prepend_eq_ok_iff.mp made
    rw [withChainsOf, chains, hparts]
  round made := aggregationTime_of_prepend made
  reads {s s' t t'} made same hparts := by
    obtain ⟨hlinks, top, element, houtput, hfits, hjoins, hindex, hmade⟩ :=
      prepend_eq_ok_iff.mp made
    have hchains : s'.chains = t.lowered chain element ::
        setFirstCorrection (t.firstCorrection - top.level) t.chains := by
      rw [chains, hmade, lowered, lowered, lowestChain_congr same, firstCorrection_congr same, same]
    refine prepend_eq_ok_iff.mpr ⟨hlinks, top, element, houtput, ?_, ?_, hindex, ?_⟩
    · rw [firstCorrection_congr same]
      exact hfits
    · rw [lowestChain_congr same]
      exact hjoins
    · rw [hparts, withChainsOf, hchains]

theorem isLocal_applyLevel (level : UInt64) : IsLocal fun s => s.applyLevel level where
  writes made := by
    rcases applyLevel_eq_ok_iff.mp made with ⟨-, rfl⟩ | ⟨-, _, -, hparts⟩
    · rfl
    · rw [withChainsOf, chains, hparts]
  round {s s'} made := by
    rcases applyLevel_eq_ok_iff.mp made with ⟨-, rfl⟩ | ⟨-, correction, -, hparts⟩
    · rfl
    · have hchains := chains_of_parts hparts
      exact aggregationTime_of_setFirstCorrection hchains
  reads {s s' t t'} made same hparts := by
    rcases applyLevel_eq_ok_iff.mp made with ⟨hzero, rfl⟩ | ⟨happlied, correction, hadd, hmade⟩
    · have hunchanged : t'.parts = t.parts := by rw [hparts, withChainsOf, ← same, chains]
      exact applyLevel_eq_ok_iff.mpr (Or.inl ⟨hzero, eq_of_parts hunchanged⟩)
    · refine applyLevel_eq_ok_iff.mpr (Or.inr ⟨happlied, correction, ?_, ?_⟩)
      · rw [firstCorrection_congr same]
        exact hadd
      · have hchains : s'.chains = setFirstCorrection correction t.chains := by
          rw [chains, hmade, same]
        rw [hparts, withChainsOf, hchains]

/-! ### Either order -/

section Order

variable {act : Signature → Except ChainError Signature} {e : Extender}
  {publication : PublicationRecord}

/-- What extending asks for and gives, if it does not matter what the service was asked before. -/
theorem extend_eq_ok_iff_of_fixed (fixed : e.AnswersByRequest) (log log' : List ExtensionRequest) :
    (s.extend e publication log).1 = .ok t ↔
      s.aggregationTime ≤ publication.publicationData.publicationTime ∧
      ∃ chain, (e.answer log' ⟨s.aggregationTime,
          some publication.publicationData.publicationTime⟩).result = .ok chain ∧
        s.agreesWith chain = true ∧ t.parts = s.extendedParts publication chain := by
  refine ⟨fun h => ?_, ?_⟩
  · have hpair : s.extend e publication log = (.ok t, (s.extend e publication log).2) :=
      Prod.ext h rfl
    obtain ⟨hnotBefore, _, rfl, -, chain, hchain, hkept⟩ := extend_eq_ok_iff.mp hpair
    exact ⟨hnotBefore, chain, (fixed log' log _).trans hchain, hkept⟩
  · rintro ⟨hnotBefore, chain, hchain, hkept⟩
    rw [extend_eq_ok_iff.mpr
      ⟨hnotBefore, _, rfl, rfl, chain, (fixed log log' _).trans hchain, hkept⟩]

theorem agreesWith_of_withChainsOf (h : s'.parts = s.withChainsOf t) (chain : CalendarChain) :
    s'.agreesWith chain = s.agreesWith chain := by
  rw [agreesWith, agreesWith, calendarChain, h]
  rfl

theorem extendedParts_of_withChainsOf (h : s'.parts = s.withChainsOf t) (chain : CalendarChain) :
    s'.extendedParts publication chain =
      { s.extendedParts publication chain with chains := t.chains } := by
  rw [extendedParts, extendedParts, h, withChainsOf]

/-- **An operation on the spot and extending succeed in either order or in neither**, and come to
the same. -/
theorem IsLocal.extend_comm (isLocal : IsLocal act) (fixed : e.AnswersByRequest)
    (log log' : List ExtensionRequest) :
    (act s >>= fun s' => (s'.extend e publication log).1) = .ok t ↔
      ((s.extend e publication log').1 >>= act) = .ok t := by
  simp only [bind_eq_ok_iff, extend_eq_ok_iff_of_fixed fixed _ []]
  refine ⟨?_, ?_⟩
  · rintro ⟨s', made, hnotBefore, chain, hchain, hagrees, hparts⟩
    have hs' := isLocal.writes made
    rw [isLocal.round made] at hnotBefore hchain
    rw [agreesWith_of_withChainsOf hs'] at hagrees
    rw [extendedParts_of_withChainsOf hs'] at hparts
    -- The signature extended first is the one at the end with the chains from the start.
    obtain ⟨t', ht'⟩ := exists_withChainsOf t s
    have hextended : t'.parts = s.extendedParts publication chain := by
      rw [ht', withChainsOf, hparts]
      rfl
    have hchains : t'.chains = s.chains := by rw [chains, ht', withChainsOf]
    have hlast : t.parts = t'.withChainsOf s' := by rw [hparts, withChainsOf, hextended]
    exact ⟨t', ⟨hnotBefore, chain, hchain, hagrees, hextended⟩, isLocal.reads made hchains hlast⟩
  · rintro ⟨t', ⟨hnotBefore, chain, hchain, hagrees, hextended⟩, made⟩
    -- The signature reshaped first is the one at the start with the chains from the end.
    obtain ⟨s', hs'⟩ := exists_withChainsOf s t
    have hchains : s.chains = t'.chains := by
      rw [chains, chains, hextended]
      rfl
    have hmade : act s = .ok s' := isLocal.reads made hchains hs'
    have hparts : t.parts = s'.extendedParts publication chain := by
      rw [extendedParts_of_withChainsOf hs', isLocal.writes made, withChainsOf, hextended]
    rw [← isLocal.round hmade] at hnotBefore hchain
    rw [← agreesWith_of_withChainsOf hs'] at hagrees
    exact ⟨s', hmade, hnotBefore, chain, hchain, hagrees, hparts⟩

end Order

/--
**Extending commutes with putting a chain below and with applying a level.**  With a
service whose answer is a matter of the request, each succeeds before the other just when
it does after it, and the signature at the end is the same, whatever the service was asked
before.
-/
theorem extend_commutes {e : Extender} (fixed : e.AnswersByRequest) (s : Signature)
    (chain : AggregationChain) (level : UInt64) (publication : PublicationRecord)
    (log log' : List ExtensionRequest) (t : Signature) :
    ((s.prepend chain >>= fun s' => (s'.extend e publication log).1) = .ok t ↔
      ((s.extend e publication log').1 >>= fun s' => s'.prepend chain) = .ok t) ∧
    ((s.applyLevel level >>= fun s' => (s'.extend e publication log).1) = .ok t ↔
      ((s.extend e publication log').1 >>= fun s' => s'.applyLevel level) = .ok t) :=
  ⟨(isLocal_prepend chain).extend_comm fixed log log',
    (isLocal_applyLevel level).extend_comm fixed log log'⟩

/-- A calendar chain from second 1000. -/
def calendarOfSecondThousand (publicationTime : UInt32) (later : List CalendarLink) :
    CalendarChain where
  inputHash := rootOfTwoStoreys.hash
  aggregationTime := .ofUInt32 1000
  publicationTime := .ofUInt32 publicationTime
  links := { direction := .right, sibling := Imprint.uniform .sha256 0x44 } :: later

/-- The upper storey with a calendar chain. -/
def calendarStorey : Signature where
  parts := { (upperStorey 7).parts with calendarChain := some (calendarOfSecondThousand 1500 []) }
  check_parts := rfl

/-- Below a signature of second 1000 the lower storey is put, or three levels, before or after the
signature is extended to second 2000. -/
theorem extend_commutes_calendarStorey :
    let e := Archive.extender
      { chains := [calendarOfSecondThousand 2000
          [{ direction := .left, sibling := Imprint.uniform .sha256 0x55 }]]
        delay := 0 }
    let publication : PublicationRecord :=
      { publicationData := ⟨.ofUInt32 2000, rootOfTwoStoreys.hash⟩, references := []
        repositoryUris := [] }
    e.AnswersByRequest ∧
      (∃ t, (calendarStorey.prepend lowerStorey >>=
          fun s => (s.extend e publication []).1) = .ok t ∧
        ((calendarStorey.extend e publication []).1 >>=
          fun s => s.prepend lowerStorey) = .ok t) ∧
      ∃ t, (calendarStorey.applyLevel 3 >>= fun s => (s.extend e publication []).1) = .ok t ∧
        ((calendarStorey.extend e publication []).1 >>= fun s => s.applyLevel 3) = .ok t := by
  intro e publication
  have fixed : e.AnswersByRequest := fun _ _ _ => rfl
  have below : (calendarStorey.prepend lowerStorey >>=
      fun s => (s.extend e publication []).1).isOk = true := by
    decide +kernel
  have above : (calendarStorey.applyLevel 3 >>=
      fun s => (s.extend e publication []).1).isOk = true := by
    decide +kernel
  obtain ⟨t, ht⟩ := exists_of_isOk below
  obtain ⟨t', ht'⟩ := exists_of_isOk above
  have hbelow := (extend_commutes fixed calendarStorey lowerStorey 3 publication [] [] t).1.mp ht
  have habove := (extend_commutes fixed calendarStorey lowerStorey 3 publication [] [] t').2.mp ht'
  exact ⟨fixed, ⟨t, ht, hbelow⟩, t', ht', habove⟩

end Signature

end Keyless
