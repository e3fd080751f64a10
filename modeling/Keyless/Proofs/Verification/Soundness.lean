/-
What an ok of the standard policies stands for.

The standard policies are tried one after another: the signed calendar root, the
signature's own publication, and extending to a trusted one.  An ok of the whole is
an ok of one of them, on the run that the others left
(`PolicyChain.exists_endsOk_of_verify`), and each has an anchor of its own
(`Context.IsSigned`, `IsPublished`, `IsExtended`).

The point is that no anchor can be missing.  A rule that does not apply is clear, so
a rule about a certificate says nothing of a signature without an authentication
record, and a rule about a record nothing of one without a calendar chain.  What
closes the gap are the rules that ask for presence, which have no such way out, and
the coherence of the signature, by which the calendar chain leads to a recorded root
(`Context.IsCoherent`).
-/
import Keyless.Proofs.Verification.Calls
import Keyless.Proofs.Verification.Consistency
import Keyless.Proofs.Verification.Extending
import Keyless.Proofs.Verification.Tally

namespace Keyless

/-! ### Runs of policies -/

namespace Context

variable {ctx : Context} {start : List ExtensionRequest}

theorem Reaches.verify {run : Run} (h : ctx.Reaches start run) (rule : Rule) :
    ctx.Reaches start (rule.verify ctx run).2 := by
  unfold Rule.verify
  cases rule.demand ctx with
  | settled verdict => exact h
  | extended key judge =>
      have hcall := h.call key
      rcases hchain : ctx.extendedChain key run with ⟨fatal | failure | chain, run'⟩ <;>
        · rw [hchain] at hcall
          simpa [hchain] using hcall

theorem Reaches.policy {run : Run} (h : ctx.Reaches start run) (policy : Policy) :
    ctx.Reaches start (policy.run ctx run).2 :=
  Policy.run_kept (fun rule _ reached => reached.verify rule) policy h

end Context

namespace PolicyChain

/-- **An ok of policies one after another is an ok of one of them.** -/
theorem exists_endsOk_of_verify {ctx : Context} {start : List ExtensionRequest}
    {fallbacks : List Policy} {policy : Policy} {run run' : Run} {result : VerificationResult}
    (reached : ctx.Reaches start run)
    (verified : verifyFrom ctx policy fallbacks run = (.ok result, run'))
    (ok : result.state = .ok) :
    ∃ p ∈ policy :: fallbacks, ∃ mid, ctx.Reaches start mid ∧ p.EndsOk ctx mid run' :=
  exists_endsOk_of_kept (fun policy _ h => h.policy policy) reached verified ok

end PolicyChain

/-! ### The anchors -/

namespace Context

/-- A certificate stands for the calendar root: it is known, was valid when the document was signed,
and accepts the signature over the root. -/
def IsSigned (ctx : Context) : Prop :=
  ∃ record calendar lookup certificate signed,
    ctx.signature.authenticationRecord = some record ∧
    ctx.signature.calendarChain = some calendar ∧
    calendar.publicationTime = record.publicationData.publicationTime ∧
    calendar.output = .ok record.publicationData.publishedHash ∧
    ctx.publications = some lookup ∧
    lookup.certificate record.signatureData.certificateId = some certificate ∧
    certificate.isValidAt ctx.signature.aggregationTime = true ∧
    record.publicationData.octets = .ok signed ∧
    certificate.accepts record.signatureData.signatureType signed
      record.signatureData.signatureValue = true

/-- The calendar root is among the trusted publications. -/
def IsPublished (ctx : Context) : Prop :=
  ∃ record calendar lookup trusted,
    ctx.signature.publicationRecord = some record ∧
    ctx.signature.calendarChain = some calendar ∧
    calendar.publicationTime = record.publicationData.publicationTime ∧
    calendar.output = .ok record.publicationData.publishedHash ∧
    ctx.publications = some lookup ∧
    lookup.publicationAt record.publicationData.publicationTime = some trusted ∧
    trusted.publicationData.publishedHash = record.publicationData.publishedHash

/-- One chain that the service answered with leads to the earliest trusted publication from the
signature's time on, and keeps the signature's past. -/
def IsExtended (ctx : Context) (start log : List ExtensionRequest) : Prop :=
  ∃ lookup trusted chain,
    ctx.publications = some lookup ∧
    lookup.publicationFrom ctx.signature.aggregationTime = some trusted ∧
    ctx.extendingAllowed = true ∧
    ctx.Answered start log (some trusted.publicationData.publicationTime) chain ∧
    ctx.LeadsTo trusted.publicationData chain ∧
    ctx.signature.agreesWith chain = true

end Context

/-! ### From policies to anchors -/

namespace Context

variable {ctx : Context} {run run' : Run}

theorem credentials_of_verdict {unknown : Verdict}
    {check : AuthenticationRecord → Certificate → Bool} {record : AuthenticationRecord}
    (has : ctx.signature.authenticationRecord = some record) (missed : ¬ unknown.IsClear)
    (clear : (ctx.credentialsVerdict unknown check).IsClear) :
    ∃ lookup certificate, ctx.publications = some lookup ∧
      lookup.certificate record.signatureData.certificateId = some certificate ∧
      ctx.credentials = .found record certificate := by
  unfold credentialsVerdict credentials at clear
  unfold credentials
  rw [has] at clear ⊢
  cases hlookup : ctx.publications with
  | none =>
      rw [hlookup] at clear
      exact absurd clear (by simp [Verdict.IsClear])
  | some lookup =>
      rw [hlookup] at clear
      cases hcertificate : lookup.certificate record.signatureData.certificateId with
      | none =>
          simp only [hcertificate] at clear
          exact absurd clear missed
      | some certificate => exact ⟨lookup, certificate, rfl, hcertificate, by simp [hcertificate]⟩

theorem check_of_credentialsVerdict {unknown : Verdict}
    {check : AuthenticationRecord → Certificate → Bool} {record : AuthenticationRecord}
    {certificate : Certificate} (found : ctx.credentials = .found record certificate)
    (clear : (ctx.credentialsVerdict unknown check).IsClear) : check record certificate = true := by
  unfold credentialsVerdict at clear
  rw [found] at clear
  exact Verdict.isClear_ofCheck.mp clear

/-- **An ok of the key-based policy stands for a signed calendar root.** -/
theorem isSigned_of_keyBased (h : Policy.keyBased.EndsOk ctx run run') : ctx.IsSigned := by
  obtain ⟨-, consistent, hrules⟩ := Policy.internalAnd_endsOk_iff.mp h
  rw [passAll_iff_of_settled (by simp [Rule.demand])] at hrules
  simp only [List.forall_mem_cons] at hrules
  obtain ⟨-, -, -, hrecord, hknown, hvalid, haccepted, -⟩ := hrules
  rw [Rule.holds_iff_of_settled rfl] at hrecord hknown hvalid haccepted
  obtain ⟨record, has⟩ := Option.isSome_iff_exists.mp (Verdict.isClear_ofPresence.mp hrecord)
  obtain ⟨calendar, hcalendar, hpublished, houtput⟩ :=
    consistent.isCoherent.authenticated record has
  obtain ⟨lookup, certificate, hlookup, hcertificate, hfound⟩ :=
    credentials_of_verdict has (by simp [Verdict.IsClear]) hknown
  have haccepts := check_of_credentialsVerdict hfound haccepted
  cases hsigned : record.publicationData.octets with
  | error fault => simp [hsigned] at haccepts
  | ok signed =>
      rw [hsigned] at haccepts
      exact ⟨record, calendar, lookup, certificate, signed, has, hcalendar, hpublished, houtput,
        hlookup, hcertificate, check_of_credentialsVerdict hfound hvalid, hsigned, haccepts⟩

/-- **An ok of the policy of publications stands for a published calendar root.** -/
theorem isPublished_of_publicationsFile (h : Policy.publicationsFile.EndsOk ctx run run') :
    ctx.IsPublished := by
  obtain ⟨-, consistent, hrules⟩ := Policy.internalAnd_endsOk_iff.mp h
  rw [passAll_iff_of_settled (by simp [Rule.demand])] at hrules
  simp only [List.forall_mem_cons] at hrules
  obtain ⟨-, -, hrecord, -, htrusted, -⟩ := hrules
  rw [Rule.holds_iff_of_settled rfl] at hrecord htrusted
  obtain ⟨record, has⟩ := Option.isSome_iff_exists.mp (Verdict.isClear_ofPresence.mp hrecord)
  obtain ⟨calendar, hcalendar, hpublished, houtput⟩ :=
    consistent.isCoherent.published record has
  unfold trustedHashVerdict trustedPublication? at htrusted
  rw [has] at htrusted
  cases hlookup : ctx.publications with
  | none =>
      rw [hlookup] at htrusted
      exact absurd htrusted (by simp [Verdict.IsClear])
  | some lookup =>
      rw [hlookup] at htrusted
      cases hfound : lookup.publicationAt record.publicationData.publicationTime with
      | none =>
          simp only [hfound] at htrusted
          exact absurd htrusted (by simp [Verdict.IsClear])
      | some trusted =>
          simp only [hfound, Verdict.isClear_ofCheck, decide_eq_true_eq] at htrusted
          exact ⟨record, calendar, lookup, trusted, has, hcalendar, hpublished, houtput, hlookup,
            hfound, htrusted⟩

/-- **An ok of the policy that extends to publications stands for an extension to one.** -/
theorem isExtended_of_publicationsFileExtending {start : List ExtensionRequest}
    (reached : ctx.Reaches start run) (h : Policy.publicationsFileExtending.EndsOk ctx run run') :
    ctx.IsExtended start run'.log := by
  have h : ExtensionTarget.lookup.policy.EndsOk ctx run run' := h
  obtain ⟨-, -, extend, publication, chain, htarget, -, hchain, hleads⟩ :=
    ExtensionTarget.endsOk_iff.mp h
  obtain ⟨-, -, hagrees⟩ := chain?_of_extendedChain hchain
  obtain ⟨trusted, htrusted, rfl⟩ := Option.map_eq_some_iff.mp htarget
  obtain ⟨lookup, hlookup, hfrom⟩ := Option.bind_eq_some_iff.mp htrusted
  rw [canExtend, Bool.and_eq_true] at extend
  exact ⟨lookup, trusted, chain, hlookup, hfrom, extend.1, reached.answered hchain, hleads,
    hagrees⟩

end Context

/--
**An ok of the standard policies stands for an anchor.**  The calendar root is signed
under a certificate, or published, or one chain that the service answered with leads
from the signature's round to a trusted publication.
-/
theorem PolicyChain.standard_sound {ctx : Context} {start : List ExtensionRequest}
    {run run' : Run} {result : VerificationResult} (reached : ctx.Reaches start run)
    (verified : PolicyChain.standard.verify ctx run = (.ok result, run'))
    (ok : result.state = .ok) :
    ctx.IsSigned ∨ ctx.IsPublished ∨ ctx.IsExtended start run'.log := by
  obtain ⟨policy, hpolicy, mid, hmid, hends⟩ := exists_endsOk_of_verify reached verified ok
  have hcases : policy = .keyBased ∨ policy = .publicationsFile ∨
      policy = .publicationsFileExtending := by
    simpa [standard, withFallback, publicationsFile, publicationsFileExtending, single, policies]
      using hpolicy
  rcases hcases with rfl | rfl | rfl
  · exact Or.inl (Context.isSigned_of_keyBased hends)
  · exact Or.inr (Or.inl (Context.isPublished_of_publicationsFile hends))
  · exact Or.inr (Or.inr (Context.isExtended_of_publicationsFileExtending hmid hends))

/-- A signature without records is verified by the third of the standard policies. -/
theorem PolicyChain.standard_sound_bareContext :
    bareContext.IsSigned ∨ bareContext.IsPublished ∨
      bareContext.IsExtended [] (PolicyChain.standard.verify bareContext (.start [])).2.log := by
  have decided : (PolicyChain.standard.verify bareContext (.start [])).1.toOption.map
      VerificationResult.state = some .ok := by
    decide +kernel
  obtain ⟨result, hresult, ok⟩ := Option.map_eq_some_iff.mp decided
  have verified : PolicyChain.standard.verify bareContext (.start []) = (.ok result, _) :=
    Prod.ext (toOption_eq_some_iff.mp hresult) rfl
  exact PolicyChain.standard_sound .start verified ok

end Keyless
