/-
What the policies that extend a signature accept.

Both extending policies put three questions to the chain that was fetched: where it
leads, between which times, and from where (`Context.LeadsTo`).  All three rules
ask for one key, so they judge one chain, whatever the service would have answered
to a second request (`Context.passAll_iff_of_extended`), and a policy ends in ok
exactly when such a chain was had (`ExtensionTarget.endsOk_iff`).

The times are the two that the chain states.  The second that its shape encodes is
asked for nowhere: the rule about registration times looks at the signature's own
calendar chain only.  So a chain whose shape encodes another second than it states,
or none, is accepted like any other, and found out only when the signature that it
extends is itself verified (`ExtensionTarget.endsOk_iff_shape_unasked`).
-/
import Keyless.Extension.Script
import Keyless.Proofs.Extension
import Keyless.Proofs.Verification.Extension
import Keyless.Publication.Store

namespace Keyless

/-! ### Rules that ask for one key -/

namespace Context

/-- Rules that ask for a chain that is kept judge that chain, and leave the run as it is. -/
theorem passAll_iff_of_kept {ctx : Context} {key : ChainKey} {chain : CalendarChain}
    {rules : List Rule} :
    ∀ {run run' : Run}, run.cancelled = false → run.chain? key = some chain →
      ctx.signature.agreesWith chain = true →
      (∀ rule ∈ rules, ∃ judge, rule.demand ctx = .extended key judge) →
      (ctx.PassAll rules run run' ↔ run' = run ∧ ∀ rule ∈ rules, rule.Accepts ctx key chain) := by
  induction rules with
  | nil =>
      intro run run' _ _ _ _
      simp [PassAll]
  | cons rule rest ih =>
      intro run run' goes kept agrees asks
      obtain ⟨judge, hjudge⟩ := asks rule List.mem_cons_self
      have hrest := fun r hr => asks r (List.mem_cons_of_mem rule hr)
      have hcall := extendedChain_of_chain? goes kept agrees
      simp only [PassAll, Rule.passes_iff_of_extended hjudge, hcall, List.forall_mem_cons]
      refine ⟨?_, ?_⟩
      · rintro ⟨mid, ⟨-, found, hfound, haccepts⟩, hothers⟩
        obtain ⟨hchain, rfl⟩ := Prod.mk.inj hfound
        obtain rfl := Except.ok.inj (Except.ok.inj hchain)
        obtain ⟨rfl, hall⟩ := (ih goes kept agrees hrest).mp hothers
        exact ⟨rfl, haccepts, hall⟩
      · rintro ⟨rfl, haccepts, hall⟩
        exact ⟨_, ⟨goes, chain, rfl, haccepts⟩, (ih goes kept agrees hrest).mpr ⟨rfl, hall⟩⟩

/-- **Rules that ask for one key judge one chain.** -/
theorem passAll_iff_of_extended {ctx : Context} {key : ChainKey} {rules : List Rule}
    {run run' : Run} (some_rule : rules ≠ [])
    (asks : ∀ rule ∈ rules, ∃ judge, rule.demand ctx = .extended key judge) :
    ctx.PassAll rules run run' ↔ run.cancelled = false ∧
      ∃ chain, ctx.extendedChain key run = (.ok (.ok chain), run') ∧
        ∀ rule ∈ rules, rule.Accepts ctx key chain := by
  obtain ⟨first, rest, rfl⟩ := List.exists_cons_of_ne_nil some_rule
  obtain ⟨judge, hjudge⟩ := asks first List.mem_cons_self
  have hrest := fun r hr => asks r (List.mem_cons_of_mem first hr)
  simp only [PassAll, Rule.passes_iff_of_extended hjudge, List.forall_mem_cons]
  refine ⟨?_, ?_⟩
  · rintro ⟨mid, ⟨goes, chain, hchain, haccepts⟩, hothers⟩
    obtain ⟨goes', kept, agrees⟩ := chain?_of_extendedChain hchain
    obtain ⟨rfl, hall⟩ := (passAll_iff_of_kept goes' kept agrees hrest).mp hothers
    exact ⟨goes, chain, hchain, haccepts, hall⟩
  · rintro ⟨goes, chain, hchain, haccepts, hall⟩
    obtain ⟨goes', kept, agrees⟩ := chain?_of_extendedChain hchain
    exact ⟨run', ⟨goes, chain, hchain, haccepts⟩,
      (passAll_iff_of_kept goes' kept agrees hrest).mpr ⟨rfl, hall⟩⟩

/-! ### Chains that lead to a publication -/

/-- What the extending rules ask of a chain that was fetched for a publication. -/
structure LeadsTo (ctx : Context) (publication : PublicationData) (chain : CalendarChain) :
    Prop where
  /-- It leads to the published hash. -/
  output : chain.output = .ok publication.publishedHash
  /-- It states the publication's time as its end. -/
  publicationTime : chain.publicationTime = publication.publicationTime
  /-- It states the signature's time as its beginning. -/
  aggregationTime : chain.aggregationTime = ctx.signature.aggregationTime
  /-- It begins at the root of the signature's round. -/
  input : ctx.signature.rootHash = .ok chain.inputHash

end Context

namespace ExtensionTarget

/-- The rules about whether there is something to extend to, and leave to do so. -/
def conditions : ExtensionTarget → List Rule
  | .lookup => [.lookupContainsNewerPublication, .extendingPermitted]
  | .user => [.userPublicationExists, .userPublicationNewer, .extendingPermitted]

/-- The rules about the chain that was fetched. -/
def rules : ExtensionTarget → List Rule
  | .lookup => [.extendedToLookupRootHash, .extendedToLookupTime, .extendedToLookupInputHash]
  | .user => [.extendedToUserRootHash, .extendedToUserTime, .extendedToUserInputHash]

/-- The policy that extends to the target. -/
def policy : ExtensionTarget → Policy
  | .lookup => .publicationsFileExtending
  | .user => .userPublicationExtending

theorem policy_eq (target : ExtensionTarget) :
    target.policy = .internalAnd target.policy.name (target.conditions ++ target.rules) := by
  cases target <;> rfl

theorem rules_eq (target : ExtensionTarget) :
    ∃ root time input, target.rules = [root, time, input] ∧
      ∀ ctx : Context, root.demand ctx = ctx.demandTargetRoot target ∧
        time.demand ctx = ctx.demandTargetTime target ∧
        input.demand ctx = ctx.demandTargetInput target := by
  cases target <;> exact ⟨_, _, _, rfl, fun _ => ⟨rfl, rfl, rfl⟩⟩

variable {target : ExtensionTarget} {ctx : Context} {run run' : Run}

theorem demandTarget_eq {publication : PublicationData}
    (htarget : ctx.target? target = some publication)
    (judge : PublicationData → CalendarChain → Except ChainError Verdict) :
    ctx.demandTarget target judge =
      .extended (some publication.publicationTime) (judge publication) := by
  unfold Context.demandTarget
  rw [htarget]

theorem accepts_rules_iff {publication : PublicationData} {chain : CalendarChain}
    (htarget : ctx.target? target = some publication) :
    (∀ rule ∈ target.rules, rule.Accepts ctx (some publication.publicationTime) chain) ↔
      ctx.LeadsTo publication chain := by
  obtain ⟨root, time, input, hrules, hdemand⟩ := target.rules_eq
  obtain ⟨hroot, htime, hinput⟩ := hdemand ctx
  have asksRoot := hroot.trans (demandTarget_eq htarget _)
  have asksTime := htime.trans (demandTarget_eq htarget _)
  have asksInput := hinput.trans (demandTarget_eq htarget _)
  rw [hrules]
  simp only [List.forall_mem_cons, List.not_mem_nil, false_implies, implies_true, and_true,
    Rule.accepts_iff asksRoot, Rule.accepts_iff asksTime, Rule.accepts_iff asksInput,
    Context.judgeInput, Verdict.exists_isClear_check_iff, decide_eq_true_eq]
  refine ⟨?_, ?_⟩
  · rintro ⟨⟨_, houtput, rfl⟩, ⟨_, hverdict, hclear⟩, ⟨_, hroot, rfl⟩⟩
    rw [← Except.ok.inj hverdict] at hclear
    simp only [Verdict.isClear_ofCheck, Bool.and_eq_true, decide_eq_true_eq] at hclear
    exact ⟨houtput, hclear.1, hclear.2, hroot⟩
  · intro h
    refine ⟨⟨_, h.output, rfl⟩, ⟨_, rfl, ?_⟩, ⟨_, h.input, rfl⟩⟩
    simp [h.publicationTime, h.aggregationTime]

/-- **The three rules pass when a chain is had that leads to the publication.** -/
theorem passAll_rules_iff :
    ctx.PassAll target.rules run run' ↔ run.cancelled = false ∧ ∃ publication chain,
      ctx.target? target = some publication ∧
      ctx.extendedChain (some publication.publicationTime) run = (.ok (.ok chain), run') ∧
      ctx.LeadsTo publication chain := by
  obtain ⟨root, time, input, hrules, hdemand⟩ := target.rules_eq
  obtain ⟨hroot, htime, hinput⟩ := hdemand ctx
  cases htarget : ctx.target? target with
  | none =>
      -- Without a target the first rule settles at once that an anchor is missing.
      have hmissing : root.demand ctx = .settled (.ok .anchorUnavailable) := by
        rw [hroot, Context.demandTargetRoot, Context.demandTarget, htarget]
      have hnot : ¬ root.Holds ctx := by
        rw [Rule.holds_iff_of_settled hmissing]
        simp [Verdict.IsClear]
      rw [hrules]
      simp [Context.PassAll, Rule.passes_iff_of_settled hmissing, hnot]
  | some publication =>
      have asks : ∀ rule ∈ target.rules, ∃ judge,
          rule.demand ctx = .extended (some publication.publicationTime) judge := by
        rw [hrules]
        simp only [List.forall_mem_cons, List.not_mem_nil, false_implies, implies_true, and_true]
        exact ⟨⟨_, hroot.trans (demandTarget_eq htarget _)⟩,
          ⟨_, htime.trans (demandTarget_eq htarget _)⟩,
          ⟨_, hinput.trans (demandTarget_eq htarget _)⟩⟩
      rw [Context.passAll_iff_of_extended (by simp [hrules]) asks]
      simp only [accepts_rules_iff htarget, Option.some.injEq, exists_eq_left', exists_and_left]

/-! ### The policies -/

theorem conditions_hold_iff :
    (∀ rule ∈ target.conditions, rule.Holds ctx) ↔ ctx.canExtend = true ∧
      ∃ publication, ctx.target? target = some publication ∧
        (target = .user → ctx.signature.aggregationTime < publication.publicationTime) := by
  have hpermitted : Rule.extendingPermitted.Holds ctx ↔ ctx.canExtend = true :=
    (Rule.holds_iff_of_settled rfl).trans Verdict.isClear_ofPresence
  cases target with
  | lookup =>
      have hthere : Rule.lookupContainsNewerPublication.Holds ctx ↔
          (ctx.target? .lookup).isSome = true :=
        (Rule.holds_iff_of_settled rfl).trans Verdict.isClear_ofPresence
      simp [conditions, hpermitted, hthere, Option.isSome_iff_exists, and_comm]
  | user =>
      have hthere : Rule.userPublicationExists.Holds ctx ↔ ctx.userPublication.isSome = true :=
        (Rule.holds_iff_of_settled rfl).trans Verdict.isClear_ofPresence
      have hnewer : Rule.userPublicationNewer.Holds ctx ↔
          (ctx.userPublication.any fun user =>
            ctx.signature.aggregationTime < user.publicationTime) = true :=
        (Rule.holds_iff_of_settled rfl).trans Verdict.isClear_ofPresence
      simp only [conditions, List.forall_mem_cons, hpermitted, hthere, hnewer, Context.target?]
      cases ctx.userPublication <;> simp [and_comm]

theorem conditions_settled (target : ExtensionTarget) (ctx : Context) :
    ∀ rule ∈ target.conditions, ∃ settled, rule.demand ctx = .settled settled := by
  cases target <;> simp [conditions, Rule.demand]

/-- **An extending policy ends in ok exactly when the signature is consistent and a chain is had
that leads to the target.** -/
theorem endsOk_iff :
    target.policy.EndsOk ctx run run' ↔ run.cancelled = false ∧ ctx.IsConsistent ∧
      ctx.canExtend = true ∧ ∃ publication chain, ctx.target? target = some publication ∧
        (target = .user → ctx.signature.aggregationTime < publication.publicationTime) ∧
        ctx.extendedChain (some publication.publicationTime) run = (.ok (.ok chain), run') ∧
        ctx.LeadsTo publication chain := by
  rw [policy_eq, Policy.internalAnd_endsOk_iff, Context.passAll_append]
  simp only [Context.passAll_iff_of_settled (conditions_settled target ctx), conditions_hold_iff,
    passAll_rules_iff]
  refine ⟨?_, ?_⟩
  · rintro ⟨goes, consistent, mid, ⟨rfl, -, extend, publication, htarget, hnewer⟩, -, other, chain,
      htarget', hchain, hleads⟩
    obtain rfl : publication = other := Option.some.inj (htarget.symm.trans htarget')
    exact ⟨goes, consistent, extend, publication, chain, htarget, hnewer, hchain, hleads⟩
  · rintro ⟨goes, consistent, extend, publication, chain, htarget, hnewer, hchain, hleads⟩
    exact ⟨goes, consistent, run, ⟨rfl, fun _ => goes, extend, publication, htarget, hnewer⟩, goes,
      publication, chain, htarget, hchain, hleads⟩

/-- All that an extending policy does to the run is the one call for the target's chain. -/
theorem run_of_endsOk (h : target.policy.EndsOk ctx run run') {publication : PublicationData}
    (htarget : ctx.target? target = some publication) :
    run' = (ctx.extendedChain (some publication.publicationTime) run).2 := by
  obtain ⟨-, -, -, other, chain, htarget', -, hchain, -⟩ := endsOk_iff.mp h
  obtain rfl : publication = other := Option.some.inj (htarget.symm.trans htarget')
  rw [hchain]

end ExtensionTarget

/-! ### Shapes are not asked for -/

theorem Signature.registration_holds_iff {s : Signature} {chain : CalendarChain}
    (has : s.calendarChain = some chain) :
    Rule.calendarRegistrationTime.Holds (Context.ofSignature s) ↔
      chain.registrationTime = .ok chain.aggregationTime := by
  have asks : Rule.calendarRegistrationTime.demand (Context.ofSignature s) =
      .settled (.ok (.ofCheck (chain.registrationTime.toOption = some chain.aggregationTime))) := by
    show Demand.settled s.registrationVerdict = _
    unfold registrationVerdict calendarVerdict
    rw [has]
    rfl
  rw [Rule.holds_iff_of_settled asks, Verdict.isClear_ofCheck, decide_eq_true_eq,
    toOption_eq_some_iff]

/--
**What extending policies accept, and what they leave open.**  A policy that extends to
a target ends in ok exactly when a chain is had that leads to the target by the times
it states.  That the shape of the chain encodes the signature's time as well is not
part of that: it is what the rule about registration times would find if it were put
to the extended signature.
-/
theorem ExtensionTarget.endsOk_iff_shape_unasked (target : ExtensionTarget) (ctx : Context)
    (run run' : Run) :
    target.policy.EndsOk ctx run run' ↔ run.cancelled = false ∧ ctx.IsConsistent ∧
      ctx.canExtend = true ∧ ∃ publication chain, ctx.target? target = some publication ∧
        (target = .user → ctx.signature.aggregationTime < publication.publicationTime) ∧
        ctx.extendedChain (some publication.publicationTime) run = (.ok (.ok chain), run') ∧
        ctx.LeadsTo publication chain ∧ ∀ record : PublicationRecord, ∃ extended,
          ctx.signature.extendedBy record chain = .ok extended ∧
          (chain.registrationTime = .ok ctx.signature.aggregationTime ↔
            Rule.calendarRegistrationTime.Holds (Context.ofSignature extended)) := by
  rw [endsOk_iff]
  refine and_congr_right fun _ => and_congr_right fun _ => and_congr_right fun _ => ?_
  refine exists_congr fun publication => exists_congr fun chain => ?_
  refine and_congr_right fun _ => and_congr_right fun _ => and_congr_right fun hchain => ?_
  refine ⟨fun hleads => ⟨hleads, fun record => ?_⟩, fun h => h.1⟩
  obtain ⟨-, -, hagrees⟩ := Context.chain?_of_extendedChain hchain
  obtain ⟨extended, hextended, hhas⟩ :=
    ctx.signature.exists_extendedBy hleads.input hleads.output hagrees record
  refine ⟨extended, hextended, ?_⟩
  rw [Signature.registration_holds_iff hhas, hleads.aggregationTime]

/-- A chain without links.  It states that it leads from second 1000 to second 2000, and its shape
encodes no second at all. -/
def bareChain : CalendarChain where
  inputHash := rootOfTwoStoreys.hash
  aggregationTime := .ofUInt32 1000
  publicationTime := .ofUInt32 2000
  links := []

/-- The root of the round as if it had been published at second 2000. -/
def bareRoot : PublicationData where
  publicationTime := .ofUInt32 2000
  publishedHash := rootOfTwoStoreys.hash

/-- A signature of second 1000 that ends at the root of its round, a publication of that root, both
the user's and a trusted one, and a service that delivers the bare chain. -/
def bareContext : Context :=
  { twoStoreyContext (.ofUInt32 1000) with
    userPublication := some bareRoot
    extendingAllowed := true
    extender := some (Archive.mk [bareChain] 0).extender
    publications := some (PublicationStore.lookup
      { publications :=
          [{ publicationData := bareRoot, references := [], repositoryUris := [] }]
        certificates := [] }) }

/-- The run once the service has delivered. -/
def bareRun : Run := (bareContext.extendedChain (some (.ofUInt32 2000)) (.start [])).2

/-- Both extending policies accept the bare chain, whose shape does not encode second 1000. -/
theorem ExtensionTarget.endsOk_bareContext :
    ExtensionTarget.lookup.policy.EndsOk bareContext (.start []) bareRun ∧
      ExtensionTarget.user.policy.EndsOk bareContext (.start []) bareRun ∧
      bareContext.extendedChain (some (.ofUInt32 2000)) (.start []) =
        (.ok (.ok bareChain), bareRun) ∧
      bareContext.signature.aggregationTime = .ofUInt32 1000 ∧
      bareChain.registrationTime = .error (.computation .calendarTooShort) := by
  have looked : ExtensionTarget.lookup.policy.EndsOk bareContext (.start []) _ :=
    Policy.endsOk_of_state (by decide +kernel)
  have user : ExtensionTarget.user.policy.EndsOk bareContext (.start []) _ :=
    Policy.endsOk_of_state (by decide +kernel)
  rw [run_of_endsOk looked rfl] at looked
  rw [run_of_endsOk user rfl] at user
  exact ⟨looked, user, rfl, rfl, rfl⟩

end Keyless
