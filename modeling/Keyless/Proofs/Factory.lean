/-
What a factory hands out as an extended signature.

Extending trusts the service.  It asks that the publication is not before the signature
and that the chain keeps the signature's past, and takes the rest of the chain as it
comes: another round's, of another publication, leading anywhere.  The factory verifies
what was made, and hands it out only on an ok.  Whichever policy of a built-in chain gave
it, the rules of internal consistency have passed, and these compare the calendar chain
with the chains below it and with the record above it; the record is the publication
that was asked for.  So whatever a service answers, what is handed out is the signature
extended to that publication (`Signature.IsExtensionOf`), or nothing is.
-/
import Keyless.Factory
import Keyless.Proofs.Extension
import Keyless.Proofs.Verification.Consistency

namespace Keyless

/-! ### What factories hand out -/

namespace Factory

variable {f : Factory} {s s' : Signature} {document : Imprint} {level : UInt64}
  {made : Except ChainError Signature} {log log' : List ExtensionRequest}

theorem verified_eq_ok_iff :
    f.verified s document level log = (.ok s', log') ↔
      s' = s ∧ ∃ result run, f.policies.verify (f.context s document level) (.start log) =
        (.ok result, run) ∧ result.state = .ok ∧ run.log = log' := by
  unfold verified
  rcases f.policies.verify (f.context s document level) (.start log) with ⟨fatal | result, run⟩
  · simp
  · by_cases hok : result.state = .ok
    · simp [VerificationResult.isOk, hok, eq_comm]
    · simp [VerificationResult.isOk, hok]

theorem checked_eq_ok_iff :
    f.checked made document level log = (.ok s', log') ↔
      made = .ok s' ∧ ∃ result run, f.policies.verify (f.context s' document level) (.start log) =
        (.ok result, run) ∧ result.state = .ok ∧ run.log = log' := by
  unfold checked
  cases made with
  | error cause => simp
  | ok s =>
      simp only [verified_eq_ok_iff, Except.ok.injEq]
      refine ⟨?_, ?_⟩
      · rintro ⟨rfl, hverified⟩
        exact ⟨rfl, hverified⟩
      · rintro ⟨rfl, hverified⟩
        exact ⟨rfl, hverified⟩

theorem create_eq_ok_iff {parts : SignatureParts} :
    f.create parts level log = (.ok s', log') ↔
      ∃ s, Signature.ofParts parts = .ok s ∧ s.applyLevel level = .ok s' ∧
        ∃ result run, f.policies.verify (f.context s' s.inputHash level) (.start log) =
          (.ok result, run) ∧ result.state = .ok ∧ run.log = log' := by
  unfold create
  cases Signature.ofParts parts with
  | error cause => simp
  | ok s => simp only [checked_eq_ok_iff, Except.ok.injEq, exists_eq_left']

theorem prepend_eq_ok_iff {chain : AggregationChain} :
    f.prepend s chain log = (.ok s', log') ↔
      s.prepend chain = .ok s' ∧
        ∃ result run, f.policies.verify (f.context s' chain.inputHash 0) (.start log) =
          (.ok result, run) ∧ result.state = .ok ∧ run.log = log' :=
  checked_eq_ok_iff

/-- **An extended signature is handed out when it can be made and its verification ends in ok.** -/
theorem extend_eq_ok_iff {publication : PublicationRecord} :
    f.extend s publication log = (.ok s', log') ↔
      ∃ extender mid, f.extender = some extender ∧
        s.extend extender publication log = (.ok s', mid) ∧
        ∃ result run, f.policies.verify (f.context s' s.inputHash 0) (.start mid) =
          (.ok result, run) ∧ result.state = .ok ∧ run.log = log' := by
  unfold extend
  cases f.extender with
  | none => simp
  | some extender =>
      simp only [checked_eq_ok_iff, Option.some.injEq]
      refine ⟨?_, ?_⟩
      · rintro ⟨hmade, hverified⟩
        exact ⟨extender, _, rfl, Prod.ext hmade rfl, hverified⟩
      · rintro ⟨_, _, rfl, hmade, hverified⟩
        rw [hmade]
        exact ⟨rfl, hverified⟩

end Factory

/-! ### Extended signatures -/

namespace Signature

/-- The signature is another one, extended to a publication. -/
structure IsExtensionOf (extended s : Signature) (publication : PublicationRecord) : Prop where
  chains : extended.chains = s.chains
  timestampRecord : extended.timestampRecord = s.timestampRecord
  publicationRecord : extended.publicationRecord = some publication
  authenticationRecord : extended.authenticationRecord = none
  /-- The publication was not made before the signature. -/
  notBefore : s.aggregationTime ≤ publication.publicationData.publicationTime
  /-- The calendar leads from the root of the signature's round and from its second, which its
  shape says as well, to the publication, and keeps the past that the signature has. -/
  calendar : ∃ c root, extended.calendarChain = some c ∧
    c.publicationTime = publication.publicationData.publicationTime ∧
    c.output = .ok publication.publicationData.publishedHash ∧
    aggregateOutput s.chains = .ok root ∧ c.inputHash = root.hash ∧
    c.aggregationTime = s.aggregationTime ∧
    c.registrationTime = .ok s.aggregationTime ∧
    ∀ own, s.calendarChain = some own → own.rightSiblings <+: c.rightSiblings

theorem isExtensionOf_of_isCoherent {ctx : Context} {s : Signature} {extender : Extender}
    {publication : PublicationRecord} {log log' : List ExtensionRequest}
    (made : s.extend extender publication log = (.ok ctx.signature, log'))
    (coherent : ctx.IsCoherent) : ctx.signature.IsExtensionOf s publication := by
  obtain ⟨hnotBefore, _, -, -, chain, -, hagrees, hparts⟩ := extend_eq_ok_iff.mp made
  have hchains : ctx.signature.chains = s.chains := by rw [chains, hparts]; rfl
  have hcalendar : ctx.signature.calendarChain = some chain := by rw [calendarChain, hparts]; rfl
  have hpublication : ctx.signature.publicationRecord = some publication := by
    rw [publicationRecord, hparts]; rfl
  have htime : ctx.signature.aggregationTime = s.aggregationTime := by
    simp only [aggregationTime, lowestChain, hchains]
  obtain ⟨⟨root, hroot, hinput⟩, hbegins, hregistered⟩ := coherent.calendar chain hcalendar
  obtain ⟨chain', hcalendar', hends, houtput⟩ := coherent.published publication hpublication
  obtain rfl : chain = chain' := Option.some.inj (hcalendar.symm.trans hcalendar')
  -- The rules speak of the extended signature, whose chains and time are the original's.
  rw [htime] at hbegins hregistered
  rw [hchains] at hroot
  exact
    { chains := hchains
      timestampRecord := by rw [timestampRecord, hparts]; rfl
      publicationRecord := hpublication
      authenticationRecord := by rw [authenticationRecord, hparts]; rfl
      notBefore := hnotBefore
      calendar := ⟨chain, root, hcalendar, hends, houtput, hroot, hinput.symm, hbegins,
        hregistered, agreesWith_iff.mp hagrees⟩ }

end Signature

namespace Factory

/--
**A factory never hands out a badly extended signature.**  Whatever the service answers,
to this request and to those of the verification, what a factory with a built-in policy
hands out is the signature extended to the publication.
-/
theorem extend_isExtensionOf {f : Factory} (listed : f.policies ∈ PolicyChain.builtIn)
    {s extended : Signature} {publication : PublicationRecord} {log log' : List ExtensionRequest}
    (handed : f.extend s publication log = (.ok extended, log')) :
    extended.IsExtensionOf s publication := by
  obtain ⟨extender, mid, -, hmade, result, run, hverified, hok, -⟩ := extend_eq_ok_iff.mp handed
  have consistent := PolicyChain.isConsistent_of_verify listed hverified hok
  exact Signature.isExtensionOf_of_isCoherent hmade consistent.isCoherent

/-- A factory that verifies with the calendar database, and extends by it. -/
def calendarFactory : Factory where
  policies := .calendarBased
  extender := (anchoredContext rootOfSecondThree).extender
  publications := none
  extendingAllowed := true
  timeout := defaultTimeout

/-- The signature of second 1, which has a publication at second 1, is extended to second 3. -/
theorem extend_isExtensionOf_rootOfSecondThree :
    calendarFactory.policies ∈ PolicyChain.builtIn ∧ ∃ extended log,
      calendarFactory.extend anchoredSignature
        { publicationData := rootOfSecondThree, references := [], repositoryUris := [] } [] =
          (.ok extended, log) ∧
      extended.IsExtensionOf anchoredSignature
        { publicationData := rootOfSecondThree, references := [], repositoryUris := [] } := by
  have listed : calendarFactory.policies ∈ PolicyChain.builtIn := by decide
  have made : (calendarFactory.extend anchoredSignature
      { publicationData := rootOfSecondThree, references := [], repositoryUris := [] } []).1.isOk =
        true := by
    decide +kernel
  obtain ⟨extended, hextended⟩ := exists_of_isOk made
  exact ⟨listed, extended, _, Prod.ext hextended rfl,
    extend_isExtensionOf listed (Prod.ext hextended rfl)⟩

end Factory

end Keyless
