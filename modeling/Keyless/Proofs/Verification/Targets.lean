/-
Extending to the only trusted publication, and to the user's.

One publication may be offered in two ways, as the only one that a lookup holds or as
the one that the user supplied, and there is a policy that extends to it for each.  The
rules about the fetched chain are the same.  What differs is how it is settled whether
there is anything to extend to: the lookup is asked for a publication of the signature's
time or later, and the user's has to be later.  Neither of these ends a run that misses
it, so that they do not only differ in where they draw the line.  The user's publication
remains the target even so, and a chain is fetched and judged for it, whereas a lookup
that finds nothing leaves nothing to fetch.

So the two come to the same where the publication is later than the signature.  Where it
is of the same time, they do unless the lookup's policy ends in ok.  Where it is earlier,
they do unless a chain is delivered that speaks against the publication
(`Context.targetsAgree_of_isSteady`).
-/
import Keyless.Proofs.Verification.Extending
import Keyless.Proofs.Verification.Standing

namespace Keyless

namespace Context

/-- The context with a publication to extend to, as the only one that a lookup holds or as the
user's. -/
def offering (ctx : Context) (publication : PublicationRecord)
    (certificates : List EcdsaCertificate) : ExtensionTarget → Context
  | .lookup =>
    { ctx with publications := some (PublicationStore.ofRecords [publication] certificates).lookup }
  | .user => { ctx with userPublication := some publication.publicationData }

variable {ctx : Context} {publication : PublicationRecord} {certificates : List EcdsaCertificate}
  {target : ExtensionTarget}

/-- The lookup has the publication if it is of the signature's time or later. -/
theorem target?_offering_lookup :
    (ctx.offering publication certificates .lookup).target? .lookup =
      if ctx.signature.aggregationTime ≤ publication.time then some publication.publicationData
      else none := by
  show ((List.mergeSort [publication] _).find? _).map _ = _
  rw [List.mergeSort_singleton, List.find?_cons]
  by_cases hfrom : ctx.signature.aggregationTime ≤ publication.time
  · simp [hfrom, offering]
  · simp [hfrom, offering]

/-- What a demand comes to has nothing to do with publications. -/
theorem standing_demand_offering (demand : Demand) :
    demand.standing (ctx.offering publication certificates target) = demand.standing ctx := by
  cases target <;> rfl

theorem standing_internalRules_offering :
    (ctx.offering publication certificates target).standing Policy.internalRules =
      ctx.standing Policy.internalRules := by
  have hdemand : ∀ rule ∈ Policy.internalRules,
      rule.demand (ctx.offering publication certificates target) = rule.demand ctx := by
    intro rule internal
    cases target <;> cases rule <;> first | rfl | exact absurd internal (by decide)
  refine congrArg Standing.together (List.map_congr_left fun rule hrule => ?_)
  rw [hdemand rule hrule, standing_demand_offering]

/-- The rules about the fetched chain judge by the publication alone, whoever offers it. -/
theorem standing_rules_offering
    (offers : (ctx.offering publication certificates target).target? target =
      some publication.publicationData) :
    (ctx.offering publication certificates target).standing target.rules =
      (ctx.offering publication certificates .user).standing ExtensionTarget.user.rules := by
  cases target with
  | user => rfl
  | lookup =>
      simp only [standing, ExtensionTarget.rules, List.map_cons, List.map_nil, Rule.demand,
        demandTargetRoot, demandTargetTime, demandTargetInput,
        ExtensionTarget.demandTarget_eq offers, standing_demand_offering]
      rfl

/-- What the service delivers for a publication, if anything, bears the publication out. -/
def BornOut (ctx : Context) (publication : PublicationData) : Prop :=
  ∀ chain, ctx.steadyAnswer (some publication.publicationTime) = .ok chain →
    ctx.signature.agreesWith chain = true ∧ ctx.LeadsTo publication chain

theorem bornOut_offering_iff {data : PublicationData} :
    (ctx.offering publication certificates .user).BornOut data ↔ ctx.BornOut data := by
  refine forall₂_congr fun chain _ => and_congr_right fun _ => ⟨fun h => ?_, fun h => ?_⟩ <;>
    exact ⟨h.output, h.publicationTime, h.aggregationTime, h.input⟩

/-- **The rules about the fetched chain speak against a publication** only on account of a chain
that is delivered. -/
theorem goesOn_standing_rules_iff {data : PublicationData}
    (htarget : ctx.target? target = some data) :
    (ctx.standing target.rules).GoesOn ↔ ctx.BornOut data := by
  obtain ⟨root, time, input, hrules, hdemand⟩ := target.rules_eq
  obtain ⟨hroot, htime, hinput⟩ := hdemand ctx
  have asks : ∀ rule ∈ target.rules, ∃ judge,
      rule.demand ctx = .extended (some data.publicationTime) judge ∧
        ∀ chain, judge chain ≠ .ok .anchorUnavailable := by
    rw [hrules]
    simp only [List.forall_mem_cons, List.not_mem_nil, false_implies, implies_true, and_true]
    exact ⟨⟨_, hroot.trans (ExtensionTarget.demandTarget_eq htarget _),
        fun _ => Verdict.bind_ofCheck_ne⟩,
      ⟨_, htime.trans (ExtensionTarget.demandTarget_eq htarget _),
        fun _ h => Verdict.ofCheck_ne _ (Except.ok.inj h)⟩,
      ⟨_, hinput.trans (ExtensionTarget.demandTarget_eq htarget _),
        fun _ => Verdict.bind_ofCheck_ne⟩⟩
  rw [goesOn_standing_iff_of_extended (by simp [hrules]) asks]
  simp only [ExtensionTarget.accepts_rules_iff htarget]
  rfl

/-! ### Whether there is anything to extend to -/

theorem standing_conditions_lookup :
    (ctx.offering publication certificates .lookup).standing ExtensionTarget.lookup.conditions =
      (Standing.ofPresence (ctx.signature.aggregationTime ≤ publication.time)).followedBy
        (.ofPresence ctx.canExtend) := by
  have hthere : ((ctx.offering publication certificates .lookup).target? .lookup).isSome =
      decide (ctx.signature.aggregationTime ≤ publication.time) := by
    rw [target?_offering_lookup]
    split <;> simp_all
  simp only [standing, ExtensionTarget.conditions, List.map_cons, List.map_nil, Rule.demand,
    Demand.standing, hthere, Standing.together_cons]
  exact congrArg _ (Standing.followedBy_ok _)

theorem standing_conditions_user :
    (ctx.offering publication certificates .user).standing ExtensionTarget.user.conditions =
      (Standing.ofPresence (ctx.signature.aggregationTime < publication.time)).followedBy
        (.ofPresence ctx.canExtend) := by
  show Standing.followedBy (.ok .ok) (Standing.followedBy _ (Standing.followedBy _ (.ok .ok))) = _
  rw [Standing.ok_followedBy, Standing.followedBy_ok]
  rfl

theorem standing_rules_of_no_target (none_there : ctx.target? target = none) :
    ctx.standing target.rules = .ok .inconclusive := by
  obtain ⟨root, time, input, hrules, hdemand⟩ := target.rules_eq
  obtain ⟨hroot, htime, hinput⟩ := hdemand ctx
  rw [standing, hrules]
  simp only [List.map_cons, List.map_nil, hroot, htime, hinput, demandTargetRoot,
    demandTargetTime, demandTargetInput, demandTarget, none_there]
  rfl

/-! ### The two policies -/

/-- The state in which it ends to extend to the publication, or the error in place of one. -/
def endsIn (ctx : Context) (publication : PublicationRecord) (certificates : List EcdsaCertificate)
    (log : List ExtensionRequest) (target : ExtensionTarget) : Standing :=
  (((PolicyChain.single target.policy).verify (ctx.offering publication certificates target)
    (.start log)).1).map VerificationResult.state

variable {log log' : List ExtensionRequest}

theorem endsIn_eq (steady : ctx.IsSteady) :
    ctx.endsIn publication certificates log target =
      (ctx.standing Policy.internalRules).followedBy
        (((ctx.offering publication certificates target).standing target.conditions).followedBy
          ((ctx.offering publication certificates target).standing target.rules)) := by
  have hsteady : (ctx.offering publication certificates target).IsSteady := by
    cases target <;> exact steady
  have hgoesOn : target.policy.stopOnInconclusive = false := by cases target <;> rfl
  rw [endsIn, (mirrors_start _ log).state_of_policy hsteady hgoesOn, ExtensionTarget.policy_eq]
  show standing _ (Policy.internalRules ++ (target.conditions ++ target.rules)) = _
  rw [standing_append, standing_append, standing_internalRules_offering]

/-- Extending to the only trusted publication and extending to the user's come to the same, as far
as they do. -/
structure TargetsAgree (ctx : Context) (publication : PublicationRecord)
    (certificates : List EcdsaCertificate) (log log' : List ExtensionRequest) : Prop where
  /-- They do for a publication that is later than the signature. -/
  later : ctx.signature.aggregationTime < publication.time →
    ctx.endsIn publication certificates log .user = ctx.endsIn publication certificates log' .lookup
  /-- For one of the same time they do, but perhaps where the lookup's policy ends in ok. -/
  sameTime : ctx.signature.aggregationTime = publication.time →
    ctx.endsIn publication certificates log' .lookup ≠ .ok .ok →
      ctx.endsIn publication certificates log .user =
        ctx.endsIn publication certificates log' .lookup
  /-- For an earlier one they do exactly if the signature is inconsistent in itself anyway, or the
  service does not deliver anything that speaks against the publication. -/
  earlier : publication.time < ctx.signature.aggregationTime →
    (ctx.endsIn publication certificates log .user =
        ctx.endsIn publication certificates log' .lookup ↔
      (ctx.IsConsistent → ctx.BornOut publication.publicationData))

theorem endsIn_lookup_of_le (steady : ctx.IsSteady)
    (reached : ctx.signature.aggregationTime ≤ publication.time) :
    ctx.endsIn publication certificates log .lookup =
      (ctx.standing Policy.internalRules).followedBy ((Standing.ofPresence ctx.canExtend).followedBy
        ((ctx.offering publication certificates .user).standing ExtensionTarget.user.rules)) := by
  rw [endsIn_eq steady, standing_conditions_lookup, decide_eq_true reached,
    standing_rules_offering (target?_offering_lookup.trans (if_pos reached))]
  rfl

theorem endsIn_lookup_of_lt (steady : ctx.IsSteady)
    (before : publication.time < ctx.signature.aggregationTime) :
    ctx.endsIn publication certificates log .lookup =
      (ctx.standing Policy.internalRules).followedBy (.ok .inconclusive) := by
  have hnone : ¬ ctx.signature.aggregationTime ≤ publication.time := Int.not_le.mpr before
  rw [endsIn_eq steady, standing_conditions_lookup, decide_eq_false hnone,
    standing_rules_of_no_target (target?_offering_lookup.trans (if_neg hnone))]
  cases ctx.canExtend <;> rfl

theorem endsIn_user_of_le (steady : ctx.IsSteady)
    (reached : publication.time ≤ ctx.signature.aggregationTime) :
    ctx.endsIn publication certificates log .user =
      (ctx.standing Policy.internalRules).followedBy (.followedBy (.ok .inconclusive)
        ((Standing.ofPresence ctx.canExtend).followedBy
          ((ctx.offering publication certificates .user).standing
            ExtensionTarget.user.rules))) := by
  have hnot : ¬ ctx.signature.aggregationTime < publication.time := Int.not_lt.mpr reached
  rw [endsIn_eq steady, standing_conditions_user, decide_eq_false hnot, Standing.followedBy_assoc]
  rfl

/--
**Extending to the only trusted publication and to the user's** come to the same for a
publication that is later than the signature.  For one of the same time, the user's policy
misses the later publication that it wants, which shows only where all else is well.  For
an earlier one the lookup's policy asks for nothing and is inconclusive, while the user's
still asks, and fails or breaks off over a chain that speaks against the publication.
-/
theorem targetsAgree_of_isSteady (steady : ctx.IsSteady) (publication : PublicationRecord)
    (certificates : List EcdsaCertificate) (log log' : List ExtensionRequest) :
    ctx.TargetsAgree publication certificates log log' where
  later h := by
    rw [endsIn_eq steady, standing_conditions_user, decide_eq_true h,
      endsIn_lookup_of_le steady (Int.le_of_lt h)]
    rfl
  sameTime h other := by
    have hseconds : ctx.signature.aggregationTime.seconds = publication.time.seconds :=
      congrArg Time.seconds h
    rw [endsIn_lookup_of_le steady (Int.le_of_eq hseconds)] at other ⊢
    rw [endsIn_user_of_le steady (Int.le_of_eq hseconds.symm), Standing.followedBy_missing other]
  earlier h := by
    have hoffers : (ctx.offering publication certificates .user).target? .user =
        some publication.publicationData := rfl
    rw [endsIn_user_of_le steady (Int.le_of_lt h), endsIn_lookup_of_lt steady h,
      Standing.followedBy_missing_eq_iff standing_internalRules_ne, ← isConsistent_iff,
      Standing.goesOn_followedBy_iff, goesOn_standing_rules_iff hoffers, bornOut_offering_iff]
    simp [Standing.goesOn_ofPresence]

/-- The bare chain as it would be if it led to another second. -/
def bareChainTo (second : UInt32) : CalendarChain :=
  { bareChain with publicationTime := .ofUInt32 second }

/-- A hash as it would be if it had been published at a second. -/
def publishedAt (second : UInt32) (hash : Imprint) : PublicationRecord where
  publicationData := { publicationTime := .ofUInt32 second, publishedHash := hash }
  references := []
  repositoryUris := []

/-- A signature of second 1000 that ends at the root of its round, and a service that delivers bare
chains from there to the seconds 2000, 1000 and 0. -/
def servedContext : Context :=
  { twoStoreyContext (.ofUInt32 1000) with
    extendingAllowed := true
    extender := some (Archive.mk [bareChainTo 2000, bareChainTo 1000, bareChainTo 0] 0).extender }

/-- The root of the round, published at a second. -/
abbrev rootAt (second : UInt32) : PublicationRecord := publishedAt second rootOfTwoStoreys.hash

/-- Another hash, published at a second. -/
abbrev strayAt (second : UInt32) : PublicationRecord :=
  publishedAt second servedContext.signature.inputHash

theorem isSteady_servedContext : servedContext.IsSteady := by
  intro extender h log log' request
  rw [← Option.some.inj h]
  rfl

/-- The two policies part over a root that was published at the second of the signature, and over
another hash that was published before. -/
theorem endsIn_servedContext :
    (servedContext.IsSteady ∧ servedContext.extendingAllowed = true ∧
      servedContext.documentHash = none ∧ servedContext.inputLevel = 0) ∧
    (servedContext.endsIn (rootAt 1000) [] [] .lookup = .ok .ok ∧
      servedContext.endsIn (rootAt 1000) [] [] .user = .ok .inconclusive) ∧
    (servedContext.endsIn (strayAt 0) [] [] .lookup = .ok .inconclusive ∧
      servedContext.endsIn (strayAt 0) [] [] .user = .ok .failed) := by
  refine ⟨⟨isSteady_servedContext, rfl, rfl, rfl⟩, ⟨?_, ?_⟩, ?_, ?_⟩ <;> decide +kernel

/-- They agree on the root that was published later, and on another hash that was published at the
second of the signature.  A bare chain to second 0 speaks against another hash that was published
then. -/
theorem targetsAgree_servedContext :
    servedContext.IsSteady ∧
      servedContext.endsIn (rootAt 2000) [] [] .user =
        servedContext.endsIn (rootAt 2000) [] [] .lookup ∧
      servedContext.endsIn (strayAt 1000) [] [] .user =
        servedContext.endsIn (strayAt 1000) [] [] .lookup ∧
      ¬ (servedContext.IsConsistent → servedContext.BornOut (strayAt 0).publicationData) := by
  have agree := fun publication =>
    targetsAgree_of_isSteady isSteady_servedContext publication [] [] []
  refine ⟨isSteady_servedContext, (agree (rootAt 2000)).later (by decide),
    (agree (strayAt 1000)).sameTime rfl (by decide +kernel), fun h => ?_⟩
  exact absurd (((agree (strayAt 0)).earlier (by decide)).mpr h) (by decide +kernel)

end Context

end Keyless
