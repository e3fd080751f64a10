/-
What it takes for a policy to end in ok.

The state of a policy is read off its results after the fact: no failure among
them, and no missing anchor.  What proofs want is the rules, one after another,
each on the run that the one before it left: it was evaluated, and it was ok or
did not apply (`Policy.endsOk_iff`).  A rule that does not apply is passed over
without a trace, so whatever a verdict of ok is to mean has to be read off rules
that cannot be passed over.

The rules of internal consistency ask for nothing.  They pass or not by the
context alone, whatever the run, and leave the run as it is.
-/
import Keyless.Proofs.Outcome
import Keyless.Verification.BuiltIn

namespace Keyless

/-- Ok, or nothing there to check. -/
def Verdict.IsClear (v : Verdict) : Prop := v = .ok ∨ v = .notApplicable

@[simp] theorem Verdict.isClear_ofCheck {passed : Bool} :
    (Verdict.ofCheck passed).IsClear ↔ passed = true := by
  cases passed <;> simp [Verdict.ofCheck, Verdict.IsClear]

@[simp] theorem Verdict.ofCheck_eq_ok_iff {passed : Bool} :
    Verdict.ofCheck passed = .ok ↔ passed = true := by
  cases passed <;> simp [Verdict.ofCheck]

@[simp] theorem Verdict.ofCheck_eq_fail_iff {passed : Bool} :
    Verdict.ofCheck passed = .fail ↔ passed = false := by
  cases passed <;> simp [Verdict.ofCheck]

@[simp] theorem Verdict.isClear_ofPresence {present : Bool} :
    (Verdict.ofPresence present).IsClear ↔ present = true := by
  cases present <;> simp [Verdict.ofPresence, Verdict.IsClear]

theorem Verdict.isClear_iff {v : Verdict} : v.IsClear ↔ v ≠ .fail ∧ v ≠ .anchorUnavailable := by
  cases v <;> simp [Verdict.IsClear]

theorem Verdict.exists_isClear_check_iff {α : Type} {step : Except ChainError α}
    {check : α → Bool} :
    (∃ verdict, (step >>= fun a => pure (Verdict.ofCheck (check a))) = .ok verdict ∧
      verdict.IsClear) ↔ ∃ a, step = .ok a ∧ check a = true := by
  simp only [bind_pure_eq_ok_iff]
  refine ⟨?_, ?_⟩
  · rintro ⟨_, ⟨a, ha, rfl⟩, hclear⟩
    exact ⟨a, ha, Verdict.isClear_ofCheck.mp hclear⟩
  · rintro ⟨a, ha, hcheck⟩
    exact ⟨_, ⟨a, ha, rfl⟩, Verdict.isClear_ofCheck.mpr hcheck⟩

/-- A verdict that is reached step by step, and fails where a step does not pass, is clear when the
step passes and the rest is clear. -/
theorem Verdict.exists_isClear_step_iff {α : Type} {step : Except ChainError α} {passes : α → Prop}
    [DecidablePred passes] {next : α → Except ChainError Verdict} :
    (∃ verdict, (step >>= fun a => if passes a then next a else pure Verdict.fail) = .ok verdict ∧
      verdict.IsClear) ↔
      ∃ a, step = .ok a ∧ passes a ∧ ∃ verdict, next a = .ok verdict ∧ verdict.IsClear := by
  simp only [bind_eq_ok_iff]
  refine ⟨?_, ?_⟩
  · rintro ⟨verdict, ⟨a, ha, hnext⟩, hclear⟩
    by_cases hpasses : passes a
    · rw [if_pos hpasses] at hnext
      exact ⟨a, ha, hpasses, verdict, hnext, hclear⟩
    · rw [if_neg hpasses] at hnext
      rw [← Except.ok.inj hnext] at hclear
      exact absurd hclear (by simp [Verdict.IsClear])
  · rintro ⟨a, ha, hpasses, verdict, hnext, hclear⟩
    exact ⟨verdict, ⟨a, ha, by rw [if_pos hpasses, hnext]⟩, hclear⟩

/-- Such a verdict is not reached when the step fails, or the rest behind a step that passes. -/
theorem Verdict.step_eq_error_iff {α : Type} {step : Except ChainError α} {passes : α → Prop}
    [DecidablePred passes] {next : α → Except ChainError Verdict} {fault : ChainError} :
    (step >>= fun a => if passes a then next a else pure Verdict.fail) = .error fault ↔
      step = .error fault ∨ ∃ a, step = .ok a ∧ passes a ∧ next a = .error fault := by
  rw [bind_eq_error_iff]
  refine or_congr_right (exists_congr fun a => and_congr_right fun _ => ?_)
  by_cases hpasses : passes a
  · simp [hpasses]
  · simp [hpasses, pure, Except.pure]

/-- Nor is such a verdict any other than a failure, unless the rest is. -/
theorem Verdict.step_ne {α : Type} {step : Except ChainError α} {passes : α → Prop}
    [DecidablePred passes] {next : α → Except ChainError Verdict} {verdict : Verdict}
    (other : verdict ≠ .fail) (rest : ∀ a, next a ≠ .ok verdict) :
    (step >>= fun a => if passes a then next a else pure Verdict.fail) ≠ .ok verdict := by
  intro h
  obtain ⟨a, -, hnext⟩ := bind_eq_ok_iff.mp h
  by_cases hpasses : passes a
  · rw [if_pos hpasses] at hnext
    exact rest a hnext
  · rw [if_neg hpasses] at hnext
    exact other (Except.ok.inj hnext).symm

/-- Where a rule cannot but apply, a clear verdict is ok. -/
theorem Verdict.exists_isClear_iff {outcome : Except ChainError Verdict}
    (applies : outcome ≠ .ok .notApplicable) :
    (∃ verdict, outcome = .ok verdict ∧ verdict.IsClear) ↔ outcome = .ok .ok := by
  refine ⟨?_, fun h => ⟨.ok, h, Or.inl rfl⟩⟩
  rintro ⟨verdict, h, rfl | rfl⟩
  · exact h
  · exact absurd h applies

theorem PolicyOutcome.state_eq_ok_iff {o : PolicyOutcome} :
    o.state = .ok ↔ ∀ r ∈ o.results, r.verdict.IsClear := by
  have hstate : o.state = .ok ↔
      ¬ o.results.any RuleResult.isFail = true ∧
        ¬ o.results.any RuleResult.isInconclusive = true := by
    unfold state
    by_cases hfail : o.results.any RuleResult.isFail = true
    · simp [hfail]
    · by_cases hopen : o.results.any RuleResult.isInconclusive = true <;> simp [hfail, hopen]
  rw [hstate]
  simp only [List.any_eq_true, not_exists, not_and, RuleResult.isFail, RuleResult.isInconclusive,
    decide_eq_true_eq, Verdict.isClear_iff]
  exact ⟨fun h r hr => ⟨h.1 r hr, h.2 r hr⟩,
    fun h => ⟨fun r hr => (h r hr).1, fun r hr => (h r hr).2⟩⟩

/-! ### Rules one after another -/

/-- The rule is evaluated and does not stand in the way of ok. -/
def Rule.Passes (rule : Rule) (ctx : Context) (run run' : Run) : Prop :=
  run.cancelled = false ∧
    ∃ result, rule.verify ctx run = (.ok result, run') ∧ result.verdict.IsClear

/-- Rules that pass, each on the run that the one before it left. -/
def Context.PassAll (ctx : Context) : List Rule → Run → Run → Prop
  | [], run, run' => run' = run
  | rule :: rest, run, run' => ∃ mid, rule.Passes ctx run mid ∧ ctx.PassAll rest mid run'

theorem Context.passAll_append {ctx : Context} {rules rest : List Rule} :
    ∀ {run run' : Run}, ctx.PassAll (rules ++ rest) run run' ↔
      ∃ mid, ctx.PassAll rules run mid ∧ ctx.PassAll rest mid run' := by
  induction rules with
  | nil =>
      intro run run'
      simp [PassAll]
  | cons rule others ih =>
      intro run run'
      simp only [List.cons_append, PassAll, ih]
      refine ⟨?_, ?_⟩
      · rintro ⟨first, hfirst, mid, hmid, hrest⟩
        exact ⟨mid, ⟨first, hfirst, hmid⟩, hrest⟩
      · rintro ⟨mid, ⟨first, hfirst, hmid⟩, hrest⟩
        exact ⟨first, hfirst, mid, hmid, hrest⟩

namespace Policy

theorem endsRun_of_isClear {stop : Bool} {result : RuleResult} (h : result.verdict.IsClear) :
    endsRun stop result = false := by
  rcases h with h | h <;> simp [endsRun, RuleResult.isFail, RuleResult.isInconclusive, h]

theorem evaluate_isClear_iff (stop : Bool) {ctx : Context} {rules : List Rule} :
    ∀ {run run' : Run},
      (∃ results, evaluate stop ctx rules run = (.ok results, run') ∧
        ∀ r ∈ results, r.verdict.IsClear) ↔ ctx.PassAll rules run run' := by
  induction rules with
  | nil =>
      intro run run'
      simp [evaluate, Context.PassAll, and_assoc, eq_comm]
  | cons rule rest ih =>
      intro run run'
      rw [Context.PassAll, evaluate]
      by_cases hcancelled : run.cancelled = true
      · simp [hcancelled, Rule.Passes]
      · rw [if_neg hcancelled]
        rcases hverify : rule.verify ctx run with ⟨fatal | result, mid⟩
        · simp [Rule.Passes, hverify]
        · by_cases hclear : result.verdict.IsClear
          · -- The rule passes, so the rest of the run decides.
            have hpass : ∀ mid', rule.Passes ctx run mid' ↔ mid = mid' := by
              intro mid'
              simp [Rule.Passes, hverify, hclear, hcancelled, and_assoc]
            simp only [hpass, exists_eq_left', ← ih, endsRun_of_isClear hclear]
            rcases hevaluate : evaluate stop ctx rest mid with ⟨fatal | results, last⟩
            · simp
            · simp [hclear, and_assoc]
          · -- Whether or not the run ends here, the result is among its results.
            have hpass : ∀ mid', ¬ rule.Passes ctx run mid' := by
              rintro mid' ⟨-, result', heq, hclear'⟩
              rw [hverify] at heq
              obtain rfl : result = result' := Except.ok.inj (Prod.mk.inj heq).1
              exact hclear hclear'
            refine iff_of_false ?_ (fun ⟨mid', h, _⟩ => hpass mid' h)
            rintro ⟨results, hresults, hall⟩
            suffices hmem : result ∈ results from hclear (hall result hmem)
            revert hresults
            simp only
            split
            · intro hresults
              rw [← Except.ok.inj (Prod.mk.inj hresults).1]
              exact List.mem_singleton.mpr rfl
            · split
              · intro hresults
                exact absurd (Prod.mk.inj hresults).1 (by simp)
              · intro hresults
                rw [← Except.ok.inj (Prod.mk.inj hresults).1]
                exact List.mem_cons_self

/-- The policy comes to a verdict, and the verdict is ok. -/
def EndsOk (policy : Policy) (ctx : Context) (run run' : Run) : Prop :=
  ∃ outcome, policy.run ctx run = (.ok outcome, run') ∧ outcome.state = .ok

/-- Whether a policy ends in ok can be computed. -/
theorem endsOk_of_state {policy : Policy} {ctx : Context} {run : Run}
    (h : (policy.run ctx run).1.toOption.map PolicyOutcome.state = some .ok) :
    policy.EndsOk ctx run (policy.run ctx run).2 := by
  obtain ⟨outcome, houtcome, hstate⟩ := Option.map_eq_some_iff.mp h
  exact ⟨outcome, Prod.ext (toOption_eq_some_iff.mp houtcome) rfl, hstate⟩

/-- **A policy ends in ok exactly when all of its rules pass one after another.** -/
theorem endsOk_iff {policy : Policy} {ctx : Context} {run run' : Run} :
    policy.EndsOk ctx run run' ↔ ctx.PassAll policy.rules run run' := by
  rw [← evaluate_isClear_iff policy.stopOnInconclusive]
  unfold EndsOk Policy.run
  rcases evaluate policy.stopOnInconclusive ctx policy.rules run with ⟨fatal | results, last⟩
  · simp
  · simp [PolicyOutcome.state_eq_ok_iff, and_assoc]

end Policy

/-! ### Policies one after another -/

namespace PolicyChain

/-- A verification that comes to a result ends with the policy's outcome, or goes on from it. -/
theorem verifyFrom_cases {ctx : Context} {policy : Policy} {fallbacks : List Policy}
    {run run' : Run} {result : VerificationResult}
    (h : verifyFrom ctx policy fallbacks run = (.ok result, run')) :
    ∃ outcome mid, policy.run ctx run = (.ok outcome, mid) ∧
      (((fallbacks = [] ∨ outcome.state ≠ .inconclusive) ∧
          result = { earlier := [], last := outcome } ∧ run' = mid) ∨
        ∃ next others further, fallbacks = next :: others ∧ outcome.state = .inconclusive ∧
          verifyFrom ctx next others mid = (.ok further, run') ∧
          result = { further with earlier := outcome :: further.earlier }) := by
  rw [verifyFrom] at h
  rcases hrun : policy.run ctx run with ⟨fatal | outcome, mid⟩
  · rw [hrun] at h
    exact absurd (Prod.mk.inj h).1 (by simp)
  · rw [hrun] at h
    refine ⟨outcome, mid, rfl, ?_⟩
    simp only at h
    split at h
    · next next others hstate =>
        rcases hnext : verifyFrom ctx next others mid with ⟨fatal | further, last⟩
        · rw [hnext] at h
          exact absurd (Prod.mk.inj h).1 (by simp)
        · rw [hnext] at h
          obtain ⟨hresult, rfl⟩ := Prod.mk.inj h
          exact Or.inr ⟨next, others, further, rfl, hstate, hnext, (Except.ok.inj hresult).symm⟩
    · next hdecided =>
        obtain ⟨hresult, rfl⟩ := Prod.mk.inj h
        refine Or.inl ⟨Decidable.or_iff_not_imp_left.mpr fun hnonempty hstate => ?_,
          (Except.ok.inj hresult).symm, rfl⟩
        obtain ⟨next, others, hcons⟩ := List.exists_cons_of_ne_nil hnonempty
        exact hdecided next others hstate hcons

/-- An ok of policies one after another is an ok of one of them, on a run of which holds whatever
policies keep. -/
theorem exists_endsOk_of_kept {ctx : Context} {P : Run → Prop}
    (kept : ∀ (policy : Policy) {run : Run}, P run → P (policy.run ctx run).2)
    {fallbacks : List Policy} :
    ∀ {policy : Policy} {run run' : Run} {result : VerificationResult}, P run →
      verifyFrom ctx policy fallbacks run = (.ok result, run') → result.state = .ok →
      ∃ p ∈ policy :: fallbacks, ∃ mid, P mid ∧ p.EndsOk ctx mid run' := by
  induction fallbacks with
  | nil =>
      intro policy run run' result start h ok
      obtain ⟨outcome, mid, hrun, ⟨-, rfl, rfl⟩ | ⟨_, _, _, hnone, -⟩⟩ := verifyFrom_cases h
      · exact ⟨policy, List.mem_cons_self, run, start, outcome, hrun, ok⟩
      · exact absurd hnone (by simp)
  | cons next others ih =>
      intro policy run run' result start h ok
      obtain ⟨outcome, mid, hrun, ⟨-, rfl, rfl⟩ | ⟨_, _, further, hfallbacks, -, hfurther, rfl⟩⟩ :=
        verifyFrom_cases h
      · exact ⟨policy, List.mem_cons_self, run, start, outcome, hrun, ok⟩
      · obtain ⟨rfl, rfl⟩ := List.cons.inj hfallbacks
        have hmid := kept policy start
        rw [hrun] at hmid
        obtain ⟨p, hp, hends⟩ := ih hmid hfurther ok
        exact ⟨p, List.mem_cons_of_mem policy hp, hends⟩

end PolicyChain

/-! ### Rules that ask for nothing -/

namespace Rule

theorem verify_of_settled {rule : Rule} {ctx : Context} {settled : Except ChainError Verdict}
    (asks : rule.demand ctx = .settled settled) (run : Run) :
    rule.verify ctx run = (rule.report settled, run) := by
  rw [verify, asks]

/-- The rule comes to this verdict. -/
def Gives (rule : Rule) (ctx : Context) (run : Run) (verdict : Verdict) : Prop :=
  ∃ run', rule.verify ctx run = (.ok { rule, verdict }, run')

theorem gives_iff_of_settled {rule : Rule} {ctx : Context} {settled : Except ChainError Verdict}
    (asks : rule.demand ctx = .settled settled) {run : Run} {verdict : Verdict} :
    rule.Gives ctx run verdict ↔ settled = .ok verdict := by
  unfold Gives
  rw [verify_of_settled asks]
  cases settled <;> simp [report]

/-- The rule passes on what the context says alone. -/
def Holds (rule : Rule) (ctx : Context) : Prop :=
  ∃ verdict : Verdict, rule.demand ctx = .settled (.ok verdict) ∧ verdict.IsClear

theorem passes_iff_of_settled {rule : Rule} {ctx : Context} {settled : Except ChainError Verdict}
    (asks : rule.demand ctx = .settled settled) {run run' : Run} :
    rule.Passes ctx run run' ↔ run.cancelled = false ∧ run' = run ∧ rule.Holds ctx := by
  unfold Passes Holds verify
  rw [asks]
  cases settled with
  | error cause => simp [report]
  | ok verdict => simp [report, and_assoc, @eq_comm Run run']

/-- The rule asks for the chain with the key, and is content with this one. -/
def Accepts (rule : Rule) (ctx : Context) (key : ChainKey) (chain : CalendarChain) : Prop :=
  ∃ judge verdict, rule.demand ctx = .extended key judge ∧ judge chain = .ok verdict ∧
    verdict.IsClear

theorem accepts_iff {rule : Rule} {ctx : Context} {key : ChainKey}
    {judge : CalendarChain → Except ChainError Verdict}
    (asks : rule.demand ctx = .extended key judge) {chain : CalendarChain} :
    rule.Accepts ctx key chain ↔ ∃ verdict, judge chain = .ok verdict ∧ verdict.IsClear := by
  unfold Accepts
  simp [asks]

theorem passes_iff_of_extended {rule : Rule} {ctx : Context} {key : ChainKey}
    {judge : CalendarChain → Except ChainError Verdict}
    (asks : rule.demand ctx = .extended key judge) {run run' : Run} :
    rule.Passes ctx run run' ↔ run.cancelled = false ∧
      ∃ chain, ctx.extendedChain key run = (.ok (.ok chain), run') ∧
        rule.Accepts ctx key chain := by
  unfold Passes
  refine and_congr_right fun _ => ?_
  simp only [accepts_iff asks]
  rw [verify, asks]
  rcases hchain : ctx.extendedChain key run with ⟨fatal | failure | chain, mid⟩
  · simp [hchain]
  · simp [hchain, Verdict.IsClear, and_assoc]
  · cases hjudge : judge chain with
    | error cause => simp [hchain, report, hjudge, and_assoc]
    | ok verdict => simp [hchain, report, hjudge, and_assoc]

theorem holds_iff_of_settled {rule : Rule} {ctx : Context} {verdict : Verdict}
    (asks : rule.demand ctx = .settled (.ok verdict)) : rule.Holds ctx ↔ verdict.IsClear := by
  unfold Holds
  simp [asks]

theorem Holds.verdict {rule : Rule} {ctx : Context} {settled : Except ChainError Verdict}
    (h : rule.Holds ctx) (asks : rule.demand ctx = .settled settled) :
    ∃ verdict, settled = .ok verdict ∧ verdict.IsClear := by
  obtain ⟨verdict, hdemand, hclear⟩ := h
  rw [asks] at hdemand
  exact ⟨verdict, Demand.settled.inj hdemand, hclear⟩

end Rule

theorem Context.passAll_iff_of_settled {ctx : Context} {rules : List Rule} :
    ∀ {run run' : Run}, (∀ rule ∈ rules, ∃ settled, rule.demand ctx = .settled settled) →
      (ctx.PassAll rules run run' ↔
        run' = run ∧ (rules ≠ [] → run.cancelled = false) ∧ ∀ rule ∈ rules, rule.Holds ctx) := by
  induction rules with
  | nil =>
      intro run run' _
      simp [PassAll]
  | cons rule rest ih =>
      intro run run' settled
      obtain ⟨v, hv⟩ := settled rule List.mem_cons_self
      have hrest := fun r hr => settled r (List.mem_cons_of_mem rule hr)
      simp only [PassAll, Rule.passes_iff_of_settled hv, ih hrest, List.forall_mem_cons]
      refine ⟨?_, ?_⟩
      · rintro ⟨mid, ⟨hcancelled, rfl, hholds⟩, rfl, -, hothers⟩
        exact ⟨rfl, fun _ => hcancelled, hholds, hothers⟩
      · rintro ⟨rfl, hcancelled, hholds, hothers⟩
        have hgoes := hcancelled (List.cons_ne_nil rule rest)
        exact ⟨_, ⟨hgoes, rfl, hholds⟩, rfl, fun _ => hgoes, hothers⟩

/-- Rules that settle on verdicts, and not on faults, come to results and leave the run as it is. -/
theorem Policy.evaluate_of_settled (stop : Bool) {ctx : Context} {run : Run} {rules : List Rule}
    (goes : run.cancelled = false)
    (settled : ∀ rule ∈ rules, ∃ verdict : Verdict, rule.demand ctx = .settled (.ok verdict)) :
    ∃ results, evaluate stop ctx rules run = (.ok results, run) := by
  induction rules with
  | nil => exact ⟨[], rfl⟩
  | cons rule rest ih =>
      obtain ⟨verdict, hverdict⟩ := settled rule List.mem_cons_self
      obtain ⟨results, hresults⟩ := ih fun r hr => settled r (List.mem_cons_of_mem rule hr)
      have hrule : rule.verify ctx run = (.ok { rule, verdict }, run) := by
        rw [Rule.verify, hverdict]
        rfl
      rw [evaluate, if_neg (by simp [goes]), hrule]
      by_cases hends : endsRun stop { rule, verdict } = true
      · exact ⟨[{ rule, verdict }], by simp [hends]⟩
      · exact ⟨{ rule, verdict } :: results, by simp [hends, hresults]⟩

theorem Policy.exists_run_of_settled {policy : Policy} {ctx : Context} {run : Run}
    (goes : run.cancelled = false)
    (settled : ∀ rule ∈ policy.rules, ∃ verdict : Verdict,
      rule.demand ctx = .settled (.ok verdict)) :
    ∃ outcome, policy.run ctx run = (.ok outcome, run) := by
  obtain ⟨results, hresults⟩ := evaluate_of_settled policy.stopOnInconclusive goes settled
  rw [Policy.run, hresults]
  exact ⟨_, rfl⟩

/-! ### Internal consistency -/

/-- The rules of internal consistency hold. -/
def Context.IsConsistent (ctx : Context) : Prop := ∀ rule ∈ Policy.internalRules, rule.Holds ctx

theorem Context.IsConsistent.verdict {ctx : Context} (h : ctx.IsConsistent) (rule : Rule)
    (internal : rule ∈ Policy.internalRules) {settled : Except ChainError Verdict}
    (asks : rule.demand ctx = .settled settled) :
    ∃ verdict, settled = .ok verdict ∧ verdict.IsClear :=
  (h rule internal).verdict asks

namespace Policy

theorem internalRules_settled (ctx : Context) :
    ∀ rule ∈ internalRules, ∃ settled, rule.demand ctx = .settled settled := by
  simp [internalRules, Rule.demand]

/-- **A built-in policy ends in ok when the context is consistent and its further rules pass.** -/
theorem internalAnd_endsOk_iff {name : String} {further : List Rule} {ctx : Context}
    {run run' : Run} :
    (internalAnd name further).EndsOk ctx run run' ↔
      run.cancelled = false ∧ ctx.IsConsistent ∧ ctx.PassAll further run run' := by
  rw [endsOk_iff]
  show ctx.PassAll (internalRules ++ further) run run' ↔ _
  rw [Context.passAll_append]
  simp only [Context.passAll_iff_of_settled (internalRules_settled ctx)]
  refine ⟨?_, ?_⟩
  · rintro ⟨mid, ⟨rfl, hcancelled, hholds⟩, hfurther⟩
    exact ⟨hcancelled (by simp [internalRules]), hholds, hfurther⟩
  · rintro ⟨hcancelled, hholds, hfurther⟩
    exact ⟨run, ⟨rfl, fun _ => hcancelled, hholds⟩, hfurther⟩

end Policy

end Keyless
