/-
Extending step by step ends where extending at once does.

A publication on the way leaves nothing behind.  The second extension replaces what the
first one wrote, the calendar chain and the record, and asks the service for a chain from
the same round.  What the first one adds is a condition: the second chain has to keep
the past of the chain in between, which has to keep the signature's own.  Keeping the past
is a matter of prefixes, so the second chain then keeps the signature's own past itself
(`Signature.agreesWith_of_between`), and is what a direct extension takes
(`Signature.extend_stepwise`).  Nothing is said about which of the publications is the
later one.
-/
import Keyless.Proofs.Extension
import Keyless.Proofs.Verification.Consistency

namespace Keyless

/-- A service that answers a request with the same whenever it is asked; the time it takes may
differ. -/
def Extender.AnswersByRequest (e : Extender) : Prop :=
  ∀ log log' request, (e.answer log request).result = (e.answer log' request).result

namespace Signature

variable {s s₁ s₂ : Signature}

theorem aggregationTime_of_extendedParts {publication : PublicationRecord} {chain : CalendarChain}
    (extended : s₁.parts = s.extendedParts publication chain) :
    s₁.aggregationTime = s.aggregationTime := by
  have hchains : s₁.chains = s.chains := by rw [chains, extended]; rfl
  simp only [aggregationTime, lowestChain, hchains]

/-- Whoever keeps the past of a chain in between keeps the past that this one keeps. -/
theorem agreesWith_of_between {publication : PublicationRecord} {between chain : CalendarChain}
    (extended : s₁.parts = s.extendedParts publication between)
    (first : s.agreesWith between = true) (second : s₁.agreesWith chain = true) :
    s.agreesWith chain = true := by
  have hbetween : s₁.calendarChain = some between := by rw [calendarChain, extended]; rfl
  have hkept : between.rightSiblings <+: chain.rightSiblings :=
    agreesWith_iff.mp second between hbetween
  refine agreesWith_iff.mpr fun own hown => ?_
  exact (agreesWith_iff.mp first own hown).trans hkept

/--
**Extending to one publication and then to another is extending to the other.**  This is so
for every service whose answer is a matter of the request, whatever was asked of it before,
between and after.
-/
theorem extend_stepwise {e : Extender} (fixed : e.AnswersByRequest) {p₁ p₂ : PublicationRecord}
    {log₁ log₁' log₂ log₂' : List ExtensionRequest}
    (first : s.extend e p₁ log₁ = (.ok s₁, log₁'))
    (second : s₁.extend e p₂ log₂ = (.ok s₂, log₂')) (log : List ExtensionRequest) :
    s.extend e p₂ log =
      (.ok s₂, log ++ [⟨s.aggregationTime, some p₂.publicationData.publicationTime⟩]) := by
  obtain ⟨-, _, -, -, between, -, hagrees₁, hparts₁⟩ := extend_eq_ok_iff.mp first
  obtain ⟨hnotBefore, _, rfl, -, chain, hchain, hagrees₂, hparts₂⟩ := extend_eq_ok_iff.mp second
  rw [aggregationTime_of_extendedParts hparts₁] at hnotBefore hchain
  have hparts : s₂.parts = s.extendedParts p₂ chain := by
    rw [hparts₂, extendedParts, hparts₁]
    rfl
  exact extend_eq_ok_iff.mpr ⟨hnotBefore, _, rfl, rfl, chain, (fixed _ _ _).trans hchain,
    agreesWith_of_between hparts₁ hagrees₁ hagrees₂, hparts⟩

/-- The calendar from second 1, up to second 1 and up to second 3. -/
def archiveOfSecondOne : Archive where
  chains :=
    [calendarOfSecondOne 1 [],
      calendarOfSecondOne 3 [{ direction := .left, sibling := Imprint.uniform .sha256 0x55 }]]
  delay := 0

/-- The signature of second 1 is extended to second 3, and back to second 1. -/
theorem extend_stepwise_thereAndBack :
    let e := archiveOfSecondOne.extender
    let there : PublicationRecord :=
      { publicationData := rootOfSecondThree, references := [], repositoryUris := [] }
    let back : PublicationRecord :=
      { publicationData := rootOfSecondOne, references := [], repositoryUris := [] }
    e.AnswersByRequest ∧ ∃ s₁ s₂ log₁ log₂,
      anchoredSignature.extend e there [] = (.ok s₁, log₁) ∧
        s₁.extend e back log₁ = (.ok s₂, log₂) ∧
        anchoredSignature.extend e back [] =
          (.ok s₂, [⟨anchoredSignature.aggregationTime, some (.ofUInt32 1)⟩]) := by
  intro e there back
  have fixed : e.AnswersByRequest := fun _ _ _ => rfl
  have made : ((anchoredSignature.extend e there []).1.bind fun s => (s.extend e back
      (anchoredSignature.extend e there []).2).1).isOk = true := by
    decide +kernel
  obtain ⟨s₂, hmade⟩ := exists_of_isOk made
  obtain ⟨s₁, first, second⟩ := bind_eq_ok_iff.mp hmade
  exact ⟨fixed, s₁, s₂, _, _, Prod.ext first rfl, Prod.ext second rfl,
    extend_stepwise fixed (Prod.ext first rfl) (Prod.ext second rfl) []⟩

end Signature

end Keyless
