/-
Leave to ask the extension service only ever refines an inconclusive verdict.

Verification with a service and verification without one are two runs over the same
rules.  Most rules are blind to the service (`Rule.isBlind`): on the same run they come to
the same, whoever may be asked.  The others stand behind the rule that wants leave to ask,
in the last policy of a chain (`PolicyChain.asksLast`).  So the two runs go together until
that rule is reached, and nobody has been asked by then.  Without leave, what follows
cannot fail: every chain is out of reach, and a chain out of reach leaves a rule undecided.
Hence whatever is decided without leave has been decided before the runs part.
-/
import Keyless.Proofs.Verification.Consistency
import Keyless.Proofs.Verification.Extension
import Keyless.Proofs.Verification.Tally

namespace Keyless

/-- The context with leave to extend or without, and with another service or none. -/
def Context.served (ctx : Context) (allowed : Bool) (service : Option Extender) : Context :=
  { ctx with extendingAllowed := allowed, extender := service }

/-- Without leave a call for a chain that is not kept fails and changes nothing. -/
theorem Context.exists_extendedChain_of_forbidden (ctx : Context) {run : Run}
    (goes : run.cancelled = false) {key : ChainKey} (missing : run.chain? key = none)
    (service : Option Extender) :
    ∃ failure, (ctx.served false service).extendedChain key run = (.ok (.error failure), run) := by
  rcases (ctx.served false service).extendedChain_cases key run with ⟨hcancelled, -⟩ |
    ⟨-, chain, hkept, -⟩ | ⟨-, -, failure, -, hcall⟩ | ⟨-, -, extender, hpermitted, -⟩
  · exact absurd hcancelled (by simp [goes])
  · exact absurd hkept (by simp [missing])
  · exact ⟨failure, hcall⟩
  · exact absurd (Context.permittedExtender_eq_ok_iff.mp hpermitted).2 (by simp [Context.served])

/-! ### Rules that see the service, and rules that do not -/

namespace Rule

/-- The rule wants an extended chain. -/
def asks : Rule → Bool
  | extendedToLookupRootHash | extendedToLookupTime | extendedToLookupInputHash
  | extendedToUserRootHash | extendedToUserTime | extendedToUserInputHash
  | calendarExtendedRootHash | calendarExtendedInputHash | calendarExtendedAggregationTime => true
  | _ => false

/-- The rule takes no notice of the service. -/
def isBlind (rule : Rule) : Bool := !rule.asks && rule != .extendingPermitted

variable {rule : Rule} {ctx : Context} {run : Run}

theorem demand_served (other : rule ≠ .extendingPermitted) (allowed : Bool)
    (service : Option Extender) : rule.demand (ctx.served allowed service) = rule.demand ctx := by
  cases rule with
  | extendingPermitted => exact absurd rfl other
  | _ => rfl

theorem exists_settled_of_not_asks (silent : rule.asks = false) (ctx : Context) :
    ∃ settled, rule.demand ctx = .settled settled := by
  cases rule <;> first | exact ⟨_, rfl⟩ | exact absurd silent (by decide)

/-- A rule that asks finds that it has nothing to ask for, which is no failure, or asks. -/
theorem demand_of_asks (h : rule.asks = true) (ctx : Context) :
    (∃ verdict : Verdict, verdict ≠ .fail ∧ rule.demand ctx = .settled (.ok verdict)) ∨
      ∃ key judge, rule.demand ctx = .extended key judge := by
  have htarget : ∀ (target : ExtensionTarget)
      (judge : PublicationData → CalendarChain → Except ChainError Verdict),
      (∃ verdict : Verdict, verdict ≠ .fail ∧
        ctx.demandTarget target judge = .settled (.ok verdict)) ∨
        ∃ key judge', ctx.demandTarget target judge = .extended key judge' := by
    intro target judge
    unfold Context.demandTarget
    cases ctx.target? target with
    | none => exact Or.inl ⟨.anchorUnavailable, by decide, rfl⟩
    | some publication => exact Or.inr ⟨_, _, rfl⟩
  cases rule with
  | extendedToLookupRootHash => exact htarget .lookup _
  | extendedToLookupTime => exact htarget .lookup _
  | extendedToLookupInputHash => exact htarget .lookup _
  | extendedToUserRootHash => exact htarget .user _
  | extendedToUserTime => exact htarget .user _
  | extendedToUserInputHash => exact htarget .user _
  | calendarExtendedRootHash =>
      show (∃ verdict : Verdict, verdict ≠ .fail ∧ ctx.demandDatabaseRoot = _) ∨
        ∃ key judge, ctx.demandDatabaseRoot = .extended key judge
      unfold Context.demandDatabaseRoot
      cases ctx.signature.calendarChain with
      | none => exact Or.inl ⟨.notApplicable, by decide, rfl⟩
      | some calendar => exact Or.inr ⟨_, _, rfl⟩
  | calendarExtendedInputHash => exact Or.inr ⟨_, _, rfl⟩
  | calendarExtendedAggregationTime => exact Or.inr ⟨_, _, rfl⟩
  | _ => exact absurd h (by decide)

theorem verify_of_isBlind (blind : rule.isBlind = true) (ctx : Context) (run : Run)
    (allowed : Bool) (service : Option Extender) :
    rule.verify (ctx.served allowed service) run = ((rule.verify ctx run).1, run) := by
  obtain ⟨hsilent, hother⟩ : rule.asks = false ∧ rule ≠ .extendingPermitted := by
    simpa [isBlind] using blind
  obtain ⟨settled, hsettled⟩ := exists_settled_of_not_asks hsilent ctx
  rw [verify_of_settled hsettled,
    verify_of_settled ((demand_served hother allowed service).trans hsettled)]

/-- **Without leave a rule that asks does not fail**, and comes to the same with any service. -/
theorem exists_verify_of_forbidden (h : rule.asks = true) (ctx : Context)
    (goes : run.cancelled = false) (fresh : run.chains = []) :
    ∃ result : RuleResult, result.isFail = false ∧
      ∀ service, rule.verify (ctx.served false service) run = (.ok result, run) := by
  have hother : rule ≠ .extendingPermitted := by
    rintro rfl
    exact absurd h (by decide)
  rcases demand_of_asks h ctx with ⟨verdict, hverdict, hdemand⟩ | ⟨key, judge, hdemand⟩
  · refine ⟨{ rule, verdict }, by simpa [RuleResult.isFail] using hverdict, fun service => ?_⟩
    rw [verify_of_settled ((demand_served hother false service).trans hdemand)]
    rfl
  · -- The failure may be another one for another service; the verdict does not tell.
    refine ⟨{ rule, verdict := .anchorUnavailable }, rfl, fun service => ?_⟩
    have hmissing : run.chain? key = none := by simp [Run.chain?, fresh]
    obtain ⟨failure, hcall⟩ := ctx.exists_extendedChain_of_forbidden goes hmissing service
    rw [verify, (demand_served hother false service).trans hdemand]
    simp only [hcall]

end Rule

/-! ### Policies -/

namespace Policy

variable {stop : Bool} {ctx : Context} {rules : List Rule} {run : Run}

theorem exists_evaluate_of_blind (stop : Bool) (ctx : Context) (goes : run.cancelled = false)
    (blind : rules.all Rule.isBlind = true) :
    ∃ outcome, ∀ allowed service,
      evaluate stop (ctx.served allowed service) rules run = (outcome, run) :=
  ⟨_, fun allowed service => evaluate_eq_tally_of_still goes fun _ hrule =>
    Rule.verify_of_isBlind (List.all_eq_true.mp blind _ hrule) ctx run allowed service⟩

/-- Rules that ask come to results without leave, and none of them is a failure. -/
theorem exists_evaluate_of_forbidden (stop : Bool) (ctx : Context)
    (goes : run.cancelled = false) (fresh : run.chains = []) (asking : rules.all Rule.asks = true) :
    ∃ results : List RuleResult, results.any RuleResult.isFail = false ∧
      ∀ service, evaluate stop (ctx.served false service) rules run = (.ok results, run) := by
  induction rules with
  | nil => exact ⟨[], rfl, fun _ => rfl⟩
  | cons rule rest ih =>
      obtain ⟨hrule, hrest⟩ : rule.asks = true ∧ rest.all Rule.asks = true := by
        simpa using asking
      obtain ⟨result, hresult, hverify⟩ :=
        Rule.exists_verify_of_forbidden hrule ctx goes fresh
      by_cases hends : endsRun stop result = true
      · exact ⟨[result], by simp [hresult], fun service =>
          evaluate_cons_of_ends goes (hverify service) hends⟩
      · obtain ⟨results, hresults, hevaluate⟩ := ih hrest
        refine ⟨result :: results, by simp [hresult, hresults], fun service => ?_⟩
        rw [evaluate_cons_of_goes_on goes (hverify service) hends, hevaluate]
        rfl

/-- The results are those of an inconclusive policy. -/
def AreOpen (results : List RuleResult) : Prop :=
  results.any RuleResult.isFail = false ∧ results.any RuleResult.isInconclusive = true

theorem AreOpen.cons {results : List RuleResult} (h : AreOpen results) {result : RuleResult}
    (on : ¬ endsRun stop result = true) : AreOpen (result :: results) := by
  have hfail : result.isFail = false := by
    simp only [endsRun, Bool.or_eq_true, not_or, Bool.not_eq_true] at on
    exact on.1
  exact ⟨by simp [hfail, h.1], by simp [h.2]⟩

theorem AreOpen.state {o : PolicyOutcome} (h : AreOpen o.results) : o.state = .inconclusive := by
  simp [PolicyOutcome.state, h.1, h.2]

/-- The rule that wants leave, without it. -/
def withoutLeave : RuleResult := { rule := .extendingPermitted, verdict := .anchorUnavailable }

/-- From the rule that wants leave on, rules are inconclusive without it. -/
theorem exists_evaluate_without_leave (stop : Bool) (ctx : Context) (goes : run.cancelled = false)
    (fresh : run.chains = []) (asking : rules.all Rule.asks = true) :
    ∃ results, AreOpen results ∧ ∀ service,
      evaluate stop (ctx.served false service) (.extendingPermitted :: rules) run =
        (.ok results, run) := by
  have hverify : ∀ service, Rule.extendingPermitted.verify (ctx.served false service) run =
      (.ok withoutLeave, run) := fun _ => rfl
  by_cases hends : endsRun stop withoutLeave = true
  · exact ⟨[withoutLeave], ⟨rfl, rfl⟩, fun service =>
      evaluate_cons_of_ends goes (hverify service) hends⟩
  · obtain ⟨results, hresults, hevaluate⟩ := exists_evaluate_of_forbidden stop ctx goes fresh asking
    have hfail : (withoutLeave :: results).any RuleResult.isFail = false := by
      rw [List.any_cons, hresults]
      rfl
    refine ⟨withoutLeave :: results, ⟨hfail, rfl⟩, fun service => ?_⟩
    rw [evaluate_cons_of_goes_on goes (hverify service) hends, hevaluate]
    rfl

/-- Rules that are blind to the service come first, then the one that wants leave, and behind it
none but rules that ask. -/
def asksWithLeave : List Rule → Bool
  | [] => true
  | rule :: rest =>
    if rule.isBlind then asksWithLeave rest
    else rule = .extendingPermitted && rest.all Rule.asks

/-- **Rules that ask with leave come to the same with a service as without leave, or are
inconclusive without**; and without leave any service is as good as another. -/
theorem evaluate_of_asksWithLeave (stop : Bool) (ctx : Context) (goes : run.cancelled = false)
    (fresh : run.chains = []) (ordered : asksWithLeave rules = true) :
    ∃ outcome,
      (∀ service, evaluate stop (ctx.served false service) rules run = (outcome, run)) ∧
      ((∀ service, evaluate stop (ctx.served true service) rules run = (outcome, run)) ∨
        ∃ results, outcome = .ok results ∧ AreOpen results) := by
  induction rules with
  | nil => exact ⟨.ok [], fun _ => rfl, Or.inl fun _ => rfl⟩
  | cons rule rest ih =>
      rw [asksWithLeave] at ordered
      by_cases hblind : rule.isBlind = true
      · rw [if_pos hblind] at ordered
        have hverify := fun allowed service =>
          Rule.verify_of_isBlind hblind ctx run allowed service
        cases hreport : (rule.verify ctx run).1 with
        | error fatal =>
            simp only [hreport] at hverify
            exact ⟨.error fatal,
              fun service => evaluate_cons_of_error goes (hverify false service),
              Or.inl fun service => evaluate_cons_of_error goes (hverify true service)⟩
        | ok result =>
            simp only [hreport] at hverify
            by_cases hends : endsRun stop result = true
            · exact ⟨.ok [result],
                fun service => evaluate_cons_of_ends goes (hverify false service) hends,
                Or.inl fun service => evaluate_cons_of_ends goes (hverify true service) hends⟩
            · obtain ⟨outcome, hforbidden, hallowed⟩ := ih ordered
              refine ⟨outcome.map (result :: ·), fun service => ?_, ?_⟩
              · rw [evaluate_cons_of_goes_on goes (hverify false service) hends, hforbidden]
              · refine hallowed.imp (fun hsame service => ?_) ?_
                · rw [evaluate_cons_of_goes_on goes (hverify true service) hends, hsame]
                · rintro ⟨results, rfl, hopen⟩
                  exact ⟨result :: results, rfl, hopen.cons hends⟩
      · -- Here the runs part: without leave this rule misses its anchor.
        rw [if_neg hblind, Bool.and_eq_true, decide_eq_true_eq] at ordered
        obtain ⟨rfl, hasking⟩ := ordered
        obtain ⟨results, hopen, hevaluate⟩ :=
          exists_evaluate_without_leave stop ctx goes fresh hasking
        exact ⟨.ok results, hevaluate, Or.inr ⟨results, rfl, hopen⟩⟩

end Policy

/-! ### Policies one after another -/

namespace PolicyChain

variable {ctx : Context} {policy : Policy} {fallbacks : List Policy} {run : Run}

/-- No policy but the last asks, and that one with leave. -/
def asksLastFrom : Policy → List Policy → Bool
  | policy, [] => Policy.asksWithLeave policy.rules
  | policy, next :: others => policy.rules.all Rule.isBlind && asksLastFrom next others

def asksLast (chain : PolicyChain) : Bool := asksLastFrom chain.head chain.fallbacks

/-- **What is decided without leave is decided so with leave and any service**, and nobody is
asked. -/
theorem verifyFrom_of_asksLast (ctx : Context) (goes : run.cancelled = false)
    (fresh : run.chains = []) :
    ∀ {policy : Policy}, asksLastFrom policy fallbacks = true →
    ∃ outcome,
      (∀ service, verifyFrom (ctx.served false service) policy fallbacks run = (outcome, run)) ∧
      ((∀ service, verifyFrom (ctx.served true service) policy fallbacks run = (outcome, run)) ∨
        ∃ result, outcome = .ok result ∧ result.state = .inconclusive) := by
  induction fallbacks with
  | nil =>
      intro policy ordered
      obtain ⟨results, hforbidden, hallowed⟩ := Policy.evaluate_of_asksWithLeave
        policy.stopOnInconclusive ctx goes fresh ordered
      have hrun := fun service => Policy.run_of_evaluate (hforbidden service)
      cases results with
      | error fatal =>
          refine ⟨.error fatal, fun service => verifyFrom_of_error (hrun service), Or.inl ?_⟩
          rcases hallowed with hsame | ⟨_, hok, -⟩
          · exact fun service => verifyFrom_of_error (Policy.run_of_evaluate (hsame service))
          · exact absurd hok (by simp)
      | ok results =>
          refine ⟨_, fun service => verifyFrom_of_decided (hrun service) (Or.inl rfl), ?_⟩
          rcases hallowed with hsame | ⟨_, hok, hopen⟩
          · exact Or.inl fun service =>
              verifyFrom_of_decided (Policy.run_of_evaluate (hsame service)) (Or.inl rfl)
          · obtain rfl := Except.ok.inj hok
            exact Or.inr ⟨_, rfl, hopen.state⟩
  | cons next others ih =>
      intro policy ordered
      rw [asksLastFrom, Bool.and_eq_true] at ordered
      obtain ⟨results, hresults⟩ := Policy.exists_evaluate_of_blind
        policy.stopOnInconclusive ctx goes ordered.1
      have hrun := fun allowed service => Policy.run_of_evaluate (hresults allowed service)
      cases houtcome : policy.outcomeOf results with
      | error fatal =>
          simp only [houtcome] at hrun
          exact ⟨.error fatal, fun service => verifyFrom_of_error (hrun false service),
            Or.inl fun service => verifyFrom_of_error (hrun true service)⟩
      | ok outcome =>
          simp only [houtcome] at hrun
          by_cases hstate : outcome.state = .inconclusive
          · obtain ⟨further, hforbidden, hallowed⟩ := ih ordered.2
            refine ⟨further.map (VerificationResult.after outcome), fun service => ?_, ?_⟩
            · rw [verifyFrom_of_inconclusive (hrun false service) hstate, hforbidden]
            · refine hallowed.imp (fun hsame service => ?_) ?_
              · rw [verifyFrom_of_inconclusive (hrun true service) hstate, hsame]
              · rintro ⟨result, rfl, hopen⟩
                exact ⟨result.after outcome, rfl, hopen⟩
          · exact ⟨_, fun service => verifyFrom_of_decided (hrun false service) (Or.inr hstate),
              Or.inl fun service => verifyFrom_of_decided (hrun true service) (Or.inr hstate)⟩

theorem verifyFrom_of_cancelled (cancelled : run.cancelled = true) (nonempty : policy.rules ≠ []) :
    verifyFrom ctx policy fallbacks run = (.error .cancelled, run) := by
  obtain ⟨rule, rest, hrules⟩ := List.exists_cons_of_ne_nil nonempty
  have hevaluate : Policy.evaluate policy.stopOnInconclusive ctx policy.rules run =
      (.error .cancelled, run) := by
    rw [hrules, Policy.evaluate, if_pos cancelled]
  exact verifyFrom_of_error (Policy.run_of_evaluate hevaluate)

theorem asksLast_of_builtIn {chain : PolicyChain} (listed : chain ∈ builtIn) :
    chain.head.rules ≠ [] ∧ chain.asksLast = true := by
  have hall : ∀ chain ∈ builtIn, chain.head.rules ≠ [] ∧ chain.asksLast = true := by decide
  exact hall chain listed

/--
**Leave to extend only refines an inconclusive verdict.**  Without leave, a built-in chain
comes to one outcome whatever service there is, and leaves the run as it is, so that no
request is sent.  Unless that outcome is inconclusive, leave and any service whatsoever
change neither the outcome nor the run.
-/
theorem decided_without_leave {chain : PolicyChain} (listed : chain ∈ builtIn) (ctx : Context)
    {run : Run} (fresh : run.chains = []) :
    ∃ outcome,
      (∀ service, chain.verify (ctx.served false service) run = (outcome, run)) ∧
      ((∀ result, outcome = .ok result → result.state ≠ .inconclusive) →
        ∀ service, chain.verify (ctx.served true service) run = (outcome, run)) := by
  obtain ⟨hrules, hordered⟩ := asksLast_of_builtIn listed
  by_cases hcancelled : run.cancelled = true
  · exact ⟨.error .cancelled, fun _ => verifyFrom_of_cancelled hcancelled hrules,
      fun _ _ => verifyFrom_of_cancelled hcancelled hrules⟩
  · have goes : run.cancelled = false := by simpa using hcancelled
    obtain ⟨outcome, hforbidden, hallowed⟩ := verifyFrom_of_asksLast ctx goes fresh hordered
    refine ⟨outcome, hforbidden, fun decided => ?_⟩
    rcases hallowed with hsame | ⟨result, hok, hopen⟩
    · exact hsame
    · exact absurd hopen (decided result hok)

/-- The user's publication is of the signature's second but not its root: that has failed before
anybody could be asked. -/
theorem decided_without_leave_wrongRoot :
    userPublication ∈ builtIn ∧ (Run.start []).chains = [] ∧
      ∃ result : VerificationResult, result.state = .failed ∧ ∀ allowed service,
        userPublication.verify
          ((anchoredContext { rootOfSecondThree with publicationTime := .ofUInt32 1 }).served
            allowed service) (.start []) = (.ok result, .start []) := by
  have listed : userPublication ∈ builtIn := by decide
  obtain ⟨outcome, hforbidden, hallowed⟩ := decided_without_leave listed
    (anchoredContext { rootOfSecondThree with publicationTime := .ofUInt32 1 })
    (rfl : (Run.start []).chains = [])
  have failed : (userPublication.verify
      ((anchoredContext { rootOfSecondThree with publicationTime := .ofUInt32 1 }).served
        false none) (.start [])).1.toOption.map VerificationResult.state = some .failed := by
    decide +kernel
  obtain ⟨result, run, verified, hstate⟩ := exists_verify_of_state failed
  obtain ⟨rfl, -⟩ := Prod.mk.inj ((hforbidden none).symm.trans verified)
  have hdecided : ∀ other : VerificationResult,
      Except.ok (ε := VerificationError) result = .ok other → other.state ≠ .inconclusive := by
    intro other hother
    rw [← Except.ok.inj hother, hstate]
    decide
  refine ⟨listed, rfl, result, hstate, fun allowed service => ?_⟩
  cases allowed with
  | false => exact hforbidden service
  | true => exact hallowed hdecided service

end PolicyChain

end Keyless
