/-
Chains kept from earlier calls are not seen by rules.

A service whose answers depend on the request alone gives each key one answer
(`Context.steadyAnswer`), and a run that goes on keeps nothing else (`Context.Mirrors`).
So a call comes to the same whether it asks or finds a chain, and whether or not the same
call has failed before, since a failure is not kept and is asked for again; and the run
that it leaves is of the same kind.  Hence each rule comes to what the context says
(`Rule.outcome`), and so does whatever is put together from rules: it does not matter what
was done on the run before.
-/
import Keyless.Proofs.Verification.Consistency
import Keyless.Proofs.Verification.Extension
import Keyless.Proofs.Verification.Tally

namespace Keyless

namespace Context

/-- The service, if there is one, answers by the request alone. -/
def IsSteady (ctx : Context) : Prop :=
  ∀ extender, ctx.extender = some extender → extender.IsSteady

/-- What a request for a key comes to, if the service answers by the request alone. -/
def steadyAnswer (ctx : Context) (key : ChainKey) : Except ExtensionFailure CalendarChain :=
  match ctx.permittedExtender with
  | .error failure => .error failure
  | .ok extender => ctx.timed (extender.answer [] (ctx.request key))

/-- The run goes on, and keeps no chain but what a request would bring. -/
structure Mirrors (ctx : Context) (run : Run) : Prop where
  goes : run.cancelled = false
  unbound : run.cancelAt = none
  kept : ∀ key chain, run.chain? key = some chain → ctx.steadyAnswer key = .ok chain

variable {ctx : Context} {run : Run}

theorem mirrors_start (ctx : Context) (log : List ExtensionRequest) :
    ctx.Mirrors (.start log) :=
  ⟨rfl, rfl, fun _ _ h => absurd h (by simp [Run.chain?, Run.start])⟩

theorem Mirrors.landed (h : ctx.Mirrors run) {flight : Flight}
    (answer : flight.result = ctx.steadyAnswer flight.key) : ctx.Mirrors (landed flight run) := by
  refine ⟨by rw [(landed_log flight run).2, h.goes], ?_, fun key chain hchain => ?_⟩
  · unfold Context.landed
    cases flight.result <;> exact h.unbound
  · rw [chain?_landed, Option.or_eq_some_iff] at hchain
    rcases hchain with hbefore | ⟨-, hnew⟩
    · exact h.kept key chain hbefore
    · by_cases hkey : flight.key = key
      · rw [if_pos hkey] at hnew
        rw [← hkey, ← answer]
        exact toOption_eq_some_iff.mp hnew
      · rw [if_neg hkey] at hnew
        exact absurd hnew (by simp)

/-- **A call comes to what a request would bring**, and leaves a run of the same kind. -/
theorem Mirrors.call (steady : ctx.IsSteady) (h : ctx.Mirrors run) (key : ChainKey) :
    (ctx.extendedChain key run).1 = ctx.judge key (ctx.steadyAnswer key) ∧
      ctx.Mirrors (ctx.extendedChain key run).2 := by
  unfold extendedChain
  rcases ctx.enquire_cases key run with ⟨hcancelled, -⟩ | ⟨-, chain, hkept, hcall⟩ |
    ⟨-, -, failure, hpermitted, hcall⟩ | ⟨-, -, extender, due, hpermitted, hcall⟩
  · exact absurd hcancelled (by simp [h.goes])
  · rw [hcall, h.kept key chain hkept]
    exact ⟨rfl, h⟩
  · have hanswer : ctx.steadyAnswer key = .error failure := by rw [steadyAnswer, hpermitted]
    rw [hcall, hanswer]
    exact ⟨rfl, h⟩
  · -- What was asked before makes no difference to the answer.
    have hanswer : ctx.timed (extender.answer run.log (ctx.request key)) =
        ctx.steadyAnswer key := by
      have hsteady := steady extender (permittedExtender_eq_ok_iff.mp hpermitted).1
      rw [steadyAnswer, hpermitted, hsteady run.log [] (ctx.request key)]
    have hunbound : ∀ moment, (ctx.asked key run).cancelledBefore? moment = none := by
      intro moment
      rw [Run.cancelledBefore?, show (ctx.asked key run).cancelAt = none from h.unbound]
      rfl
    have hasked : ctx.Mirrors (ctx.asked key run) := ⟨h.goes, h.unbound, h.kept⟩
    rw [hcall, hanswer]
    show (ctx.settle _ _).1 = _ ∧ ctx.Mirrors (ctx.settle _ _).2
    rw [settle, hunbound]
    exact ⟨rfl, hasked.landed rfl⟩

end Context

/-! ### Rules, policies, and whole verifications -/

/-- What a rule comes to if the service answers by the request alone. -/
def Rule.outcome (ctx : Context) (rule : Rule) : Except VerificationError RuleResult :=
  match rule.demand ctx with
  | .settled verdict => rule.report verdict
  | .extended key judge =>
    match ctx.judge key (ctx.steadyAnswer key) with
    | .error fatal => .error fatal
    | .ok (.error _) => .ok { rule, verdict := .anchorUnavailable }
    | .ok (.ok chain) => rule.report (judge chain)

/-- What a policy comes to then. -/
def Policy.outcome (ctx : Context) (policy : Policy) : Except VerificationError PolicyOutcome :=
  policy.outcomeOf (Policy.tally policy.stopOnInconclusive (Rule.outcome ctx) policy.rules)

/-- What a verification comes to then. -/
def PolicyChain.outcome (ctx : Context) (chain : PolicyChain) :
    Except VerificationError VerificationResult :=
  tallyFrom (Policy.outcome ctx) chain.head chain.fallbacks

namespace Context

variable {ctx : Context} {run : Run}

theorem Mirrors.rule (steady : ctx.IsSteady) (h : ctx.Mirrors run) (rule : Rule) :
    (rule.verify ctx run).1 = rule.outcome ctx ∧ ctx.Mirrors (rule.verify ctx run).2 := by
  unfold Rule.verify Rule.outcome
  cases rule.demand ctx with
  | settled verdict => exact ⟨rfl, h⟩
  | extended key judge =>
      obtain ⟨hcall, hmirrors⟩ := h.call steady key
      simp only [← hcall]
      rcases hchain : ctx.extendedChain key run with ⟨fatal | failure | chain, mid⟩ <;>
        rw [hchain] at hmirrors <;> exact ⟨rfl, hmirrors⟩

theorem Mirrors.policy (steady : ctx.IsSteady) (h : ctx.Mirrors run) (policy : Policy) :
    (policy.run ctx run).1 = policy.outcome ctx ∧ ctx.Mirrors (policy.run ctx run).2 := by
  have hevaluate : (Policy.evaluate policy.stopOnInconclusive ctx policy.rules run).1 =
      Policy.tally policy.stopOnInconclusive (Rule.outcome ctx) policy.rules ∧
      ctx.Mirrors (Policy.evaluate policy.stopOnInconclusive ctx policy.rules run).2 :=
    Policy.evaluate_eq_tally (P := ctx.Mirrors) (fun _ hmirrors => hmirrors.goes)
      (fun rule _ _ hmirrors => hmirrors.rule steady rule) run h
  obtain ⟨hresults, hmirrors⟩ := hevaluate
  rw [Policy.run_of_evaluate (Prod.ext hresults rfl)]
  exact ⟨rfl, hmirrors⟩

theorem Mirrors.chain (steady : ctx.IsSteady) (h : ctx.Mirrors run) (chain : PolicyChain) :
    (chain.verify ctx run).1 = chain.outcome ctx ∧ ctx.Mirrors (chain.verify ctx run).2 :=
  PolicyChain.verifyFrom_eq_tallyFrom (fun policy _ hmirrors => hmirrors.policy steady policy)
    chain.head run h

end Context

/-! ### One thing after another on one run -/

/-- What things come to that are done one after another, each on the run that the one before it
left, whatever that one came to. -/
def Run.inTurn {α β : Type} (act : α → Run → β × Run) : List α → Run → List β
  | [], _ => []
  | a :: rest, run => (act a run).1 :: inTurn act rest (act a run).2

/-- Things that come to the same on all runs of a kind, and keep to the kind, come in turn to what
each comes to. -/
theorem Run.inTurn_eq_map {α β : Type} {act : α → Run → β × Run} {come : α → β} {P : Run → Prop}
    (each : ∀ a run, P run → (act a run).1 = come a ∧ P (act a run).2) {items : List α} :
    ∀ {run : Run}, P run → inTurn act items run = items.map come := by
  induction items with
  | nil =>
      intro run _
      rfl
  | cons a rest ih =>
      intro run start
      obtain ⟨hcome, hkept⟩ := each a run start
      rw [inTurn, hcome, ih hkept, List.map_cons]

/-- So things that come to the same on all runs that mirror the service come in turn to what each
comes to alone. -/
theorem Context.inTurn_eq_map_alone {ctx : Context} {α β : Type} {act : α → Run → β × Run}
    {come : α → β}
    (each : ∀ a run, ctx.Mirrors run → (act a run).1 = come a ∧ ctx.Mirrors (act a run).2)
    (items : List α) (log log' : List ExtensionRequest) :
    Run.inTurn act items (.start log) = items.map fun a => (act a (.start log')).1 := by
  rw [Run.inTurn_eq_map each (mirrors_start ctx log)]
  exact List.map_congr_left fun a _ => (each a _ (mirrors_start ctx log')).1.symm

/-! ### The order of rules -/

namespace Policy

variable {verdict : Rule → Except VerificationError RuleResult}

/-- Rules that are not fatal come together to a failure if one of them does, and otherwise to a
missing anchor if one of them does. -/
theorem tally_of_ok {rules : List Rule} (ok : ∀ rule ∈ rules, ∃ result, verdict rule = .ok result) :
    ∃ results, tally false verdict rules = .ok results ∧
      results.any RuleResult.isFail =
        rules.any (fun rule => (verdict rule).toOption.any RuleResult.isFail) ∧
      (results.any RuleResult.isFail = false →
        results.any RuleResult.isInconclusive =
          rules.any fun rule => (verdict rule).toOption.any RuleResult.isInconclusive) := by
  induction rules with
  | nil => exact ⟨[], rfl, rfl, fun _ => rfl⟩
  | cons rule rest ih =>
      obtain ⟨results, hresults, hfail, hopen⟩ := ih fun r hr => ok r (List.mem_cons_of_mem rule hr)
      obtain ⟨result, hresult⟩ := ok rule List.mem_cons_self
      have hoption : (verdict rule).toOption = some result := toOption_eq_some_iff.mpr hresult
      rw [tally, hresult, List.any_cons, List.any_cons, hoption]
      simp only [endsRun, Bool.false_and, Bool.or_false, Option.any_some]
      by_cases hrule : result.isFail = true
      · exact ⟨[result], if_pos hrule, by simp [hrule], by simp [hrule]⟩
      · refine ⟨result :: results, by rw [if_neg hrule, hresults]; rfl, by simp [hfail], ?_⟩
        intro hnone
        rw [List.any_cons, Bool.or_eq_false_iff] at hnone
        rw [List.any_cons, hopen hnone.2]

/-- So the order of such rules does not matter to the state. -/
theorem state_of_perm {rules rules' : List Rule} (perm : rules'.Perm rules)
    (ok : ∀ rule ∈ rules, ∃ result, verdict rule = .ok result) :
    ∃ results results', tally false verdict rules = .ok results ∧
      tally false verdict rules' = .ok results' ∧
      ∀ name completed name' completed',
        PolicyOutcome.state ⟨name', completed', results'⟩ =
          PolicyOutcome.state ⟨name, completed, results⟩ := by
  obtain ⟨results, hresults, hfail, hopen⟩ := tally_of_ok ok
  obtain ⟨results', hresults', hfail', hopen'⟩ :=
    tally_of_ok fun rule hrule => ok rule (perm.mem_iff.mp hrule)
  rw [perm.any_eq, ← hfail] at hfail'
  refine ⟨results, results', hresults, hresults', fun _ _ _ _ => ?_⟩
  unfold PolicyOutcome.state
  simp only [hfail']
  by_cases hany : results.any RuleResult.isFail = true
  · rw [if_pos hany, if_pos hany]
  · have hnone : results.any RuleResult.isFail = false := by simpa using hany
    have hsame := (hopen' (hfail'.trans hnone)).trans (perm.any_eq.trans (hopen hnone).symm)
    rw [if_neg hany, if_neg hany, hsame]

theorem outcome_of_tally {ctx : Context} {policy : Policy} {results : List RuleResult}
    (goesOn : policy.stopOnInconclusive = false)
    (h : tally false (Rule.outcome ctx) policy.rules = .ok results) :
    policy.outcome ctx = .ok
      { policy := policy.name, completed := results.length = policy.rules.length, results } := by
  rw [outcome, goesOn, h]
  rfl

end Policy

/-! ### Transparency -/

/-- What was done on a run before is not seen by what is done on it later. -/
structure Context.IsTransparent (ctx : Context) : Prop where
  /-- Rules in turn, repetitions and fatal ones included, come to what each comes to alone. -/
  rules : ∀ (rules : List Rule) (log log' : List ExtensionRequest),
    Run.inTurn (fun rule run => rule.verify ctx run) rules (.start log) =
      rules.map fun rule => (rule.verify ctx (.start log')).1
  /-- So do policies without their fallbacks. -/
  policies : ∀ (policies : List Policy) (log log' : List ExtensionRequest),
    Run.inTurn (fun policy run => policy.run ctx run) policies (.start log) =
      policies.map fun policy => (policy.run ctx (.start log')).1
  /-- So do whole verifications. -/
  chains : ∀ (chains : List PolicyChain) (log log' : List ExtensionRequest),
    Run.inTurn (fun chain run => chain.verify ctx run) chains (.start log) =
      chains.map fun chain => (chain.verify ctx (.start log')).1
  /-- A policy that goes on behind missing anchors ends in one state whatever the order of its
  rules, if none of them is fatal. -/
  order : ∀ (policy : Policy) (rules : List Rule) (log log' : List ExtensionRequest),
    policy.stopOnInconclusive = false → rules.Perm policy.rules →
    (∀ rule ∈ policy.rules, ∃ result, (rule.verify ctx (.start log)).1 = .ok result) →
    ∃ outcome outcome', (policy.run ctx (.start log)).1 = .ok outcome ∧
      (({ policy with rules } : Policy).run ctx (.start log')).1 = .ok outcome' ∧
      outcome'.state = outcome.state

namespace Context

variable {ctx : Context}

/--
**Kept chains are transparent** when the service answers by the request alone.  The chain
that a call finds is the one that it would have been sent, whichever rule asked for it
first and whatever that rule made of it, and a call that failed is made again.
-/
theorem isTransparent_of_isSteady (steady : ctx.IsSteady) : ctx.IsTransparent where
  rules := inTurn_eq_map_alone fun rule _ h => h.rule steady rule
  policies := inTurn_eq_map_alone fun policy _ h => h.policy steady policy
  chains := inTurn_eq_map_alone fun chain _ h => h.chain steady chain
  order policy rules log log' goesOn perm ok := by
    have hok : ∀ rule ∈ policy.rules, ∃ result, rule.outcome ctx = .ok result := by
      intro rule hrule
      obtain ⟨result, hresult⟩ := ok rule hrule
      exact ⟨result, by rw [← ((mirrors_start ctx log).rule steady rule).1, hresult]⟩
    obtain ⟨results, results', htally, htally', hstate⟩ := Policy.state_of_perm perm hok
    have hrun := ((mirrors_start ctx log).policy steady policy).1
    have hrun' := ((mirrors_start ctx log').policy steady { policy with rules }).1
    exact ⟨_, _, hrun.trans (Policy.outcome_of_tally goesOn htally),
      hrun'.trans (Policy.outcome_of_tally goesOn htally'), hstate _ _ _ _⟩

/-- The archive of `anchoredContext` answers by the request alone. -/
theorem isTransparent_of_isSteady_anchoredContext :
    (anchoredContext rootOfSecondThree).IsSteady ∧
      (anchoredContext rootOfSecondThree).IsTransparent := by
  have steady : (anchoredContext rootOfSecondThree).IsSteady := by
    intro extender h log log' request
    rw [← Option.some.inj h]
    rfl
  exact ⟨steady, isTransparent_of_isSteady steady⟩

end Context

end Keyless
