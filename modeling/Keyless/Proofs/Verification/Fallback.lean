/-
Falling back, and the code that tells how it ended.

A verification runs policies one after another for as long as they end inconclusive.  It
is the loop over rules again, one level up, so what it leaves behind is had in the same
way, from what one turn of it adds.

The code is all that most callers see of a result, and it tells the three states apart.
That takes an argument, because the code of an inconclusive result is also the own code of
nine rules, and would be reported for a failure if one of them failed.  None of them does.
Each asks only whether some anchor is there, and what is not there withholds an ok without
failing anything.
-/
import Keyless.Proofs.Verification.Course

namespace Keyless

/-! ### Policies one after another -/

/-- The policy is run and comes to an outcome. -/
def Policy.Ends (ctx : Context) (policy : Policy) (run : Run) (o : PolicyOutcome) (last : Run) :
    Prop :=
  policy.run ctx run = (.ok o, last)

/-- Whether an outcome leaves nothing to fall back for. -/
def PolicyOutcome.isDecided (o : PolicyOutcome) : Bool := o.state ≠ .inconclusive

@[simp] theorem PolicyOutcome.isDecided_iff {o : PolicyOutcome} :
    o.isDecided = true ↔ o.state ≠ .inconclusive := by
  simp [isDecided]

namespace VerificationResult

@[simp] theorem outcomes_cons (o : PolicyOutcome) (result : VerificationResult) :
    outcomes { result with earlier := o :: result.earlier } = o :: result.outcomes := rfl

@[simp] theorem getLast?_outcomes (result : VerificationResult) :
    result.outcomes.getLast? = some result.last :=
  List.getLast?_concat

end VerificationResult

namespace PolicyChain

variable {ctx : Context} {fallbacks : List Policy} {last : Run}

theorem until_of_verifyFrom :
    ∀ {policy : Policy} {run : Run} {result : VerificationResult},
      verifyFrom ctx policy fallbacks run = (.ok result, last) →
      Run.Until (Policy.Ends ctx) PolicyOutcome.isDecided (policy :: fallbacks) run result.outcomes
        last := by
  induction fallbacks with
  | nil =>
      intro policy run result h
      obtain ⟨outcome, mid, hrun, ⟨-, rfl, rfl⟩ | ⟨_, _, _, hnone, -⟩⟩ := verifyFrom_cases h
      · by_cases hdecided : outcome.isDecided = true
        · exact .here hrun hdecided
        · exact .further hrun (eq_false_of_ne_true hdecided) (.nothing last)
      · exact absurd hnone (by simp)
  | cons next others ih =>
      intro policy run result h
      obtain ⟨outcome, mid, hrun, hturn⟩ := verifyFrom_cases h
      rcases hturn with ⟨hends, rfl, rfl⟩ | ⟨_, _, further, hcons, hopen, hfurther, rfl⟩
      · exact .here hrun
          (PolicyOutcome.isDecided_iff.mpr (hends.resolve_left (List.cons_ne_nil next others)))
      · obtain ⟨rfl, rfl⟩ := List.cons.inj hcons
        exact .further hrun (by simp [PolicyOutcome.isDecided, hopen]) (ih hfurther)

/-! ### Stages of policies -/

/-- Runs policies as `verifyFrom` does, each as `Policy.track` does, and keeps the stages in which
they end. -/
def track (ctx : Context) :
    List Policy → List Stage → Run → Except VerificationError (List Stage) × Run
  | [], stages, run => (.ok stages, run)
  | policy :: rest, stages, run =>
    match Policy.track policy.stopOnInconclusive ctx policy.rules .start run with
    | (.error fatal, run) => (.error fatal, run)
    | (.ok p, run) =>
      if p.conclude ≠ .ended .inconclusive then (.ok (stages ++ [p.conclude]), run)
      else track ctx rest (stages ++ [p.conclude]) run

/-- The stages are those of the outcomes. -/
theorem track_of_verifyFrom :
    ∀ {policy : Policy} {run : Run} {result : VerificationResult} (stages : List Stage),
      verifyFrom ctx policy fallbacks run = (.ok result, last) →
      track ctx (policy :: fallbacks) stages run =
        (.ok (stages ++ result.outcomes.map fun o => .ended o.state), last) := by
  induction fallbacks with
  | nil =>
      intro policy run result stages h
      obtain ⟨outcome, mid, hrun, ⟨-, rfl, rfl⟩ | ⟨_, _, _, hnone, -⟩⟩ := verifyFrom_cases h
      · obtain ⟨p, htrack, -, hp⟩ := (Policy.records_of_run hrun).tracked
        rw [track, htrack]
        simp only [hp, track, ite_self]
        rfl
      · exact absurd hnone (by simp)
  | cons next others ih =>
      intro policy run result stages h
      obtain ⟨outcome, mid, hrun, hturn⟩ := verifyFrom_cases h
      obtain ⟨p, htrack, -, hp⟩ := (Policy.records_of_run hrun).tracked
      rw [track, htrack]
      rcases hturn with ⟨hends, rfl, rfl⟩ | ⟨_, _, further, hcons, hopen, hfurther, rfl⟩
      · have hdecided := hends.resolve_left (List.cons_ne_nil next others)
        simp only [hp, ne_eq, Stage.ended.injEq, hdecided, not_false_eq_true, if_true]
        rfl
      · obtain ⟨rfl, rfl⟩ := List.cons.inj hcons
        simp only [hp, hopen, ne_eq, not_true_eq_false, if_false]
        rw [ih _ hfurther]
        simp [hopen]

end PolicyChain

/-! ### Codes -/

theorem ErrorCode.text_eq_inconclusive_iff {code : ErrorCode} :
    code.text = "GEN-02" ↔ code = .inconclusive := by
  cases code <;> decide

namespace Rule

variable {rule : Rule} {ctx : Context} {run last : Run} {result : RuleResult}

theorem rule_of_report {verdict : Except ChainError Verdict}
    (h : rule.report verdict = .ok result) : result.rule = rule := by
  cases verdict with
  | error cause => exact absurd h (by simp [report])
  | ok verdict => rw [← Except.ok.inj h]

/-- A rule reports on itself. -/
theorem rule_of_verify (h : rule.verify ctx run = (.ok result, last)) : result.rule = rule := by
  cases hdemand : rule.demand ctx with
  | settled settled =>
      rw [verify_of_settled hdemand] at h
      exact rule_of_report (Prod.mk.inj h).1
  | extended key judge =>
      rcases hcall : ctx.extendedChain key run with ⟨fatal | failure | chain, mid⟩ <;>
        rw [verify_of_extended hdemand hcall] at h <;>
        have hconclude := (Prod.mk.inj h).1
      · exact absurd hconclude (by simp [conclude])
      · rw [← Except.ok.inj hconclude]
      · exact rule_of_report hconclude

/-- A rule with the inconclusive code asks only whether something is there. -/
theorem exists_ofPresence (owns : rule.errorCode = .inconclusive) (ctx : Context) :
    ∃ present, rule.demand ctx = .settled (.ok (.ofPresence present)) := by
  cases rule
  all_goals first
    | exact ⟨_, rfl⟩
    | exact absurd owns (by decide)

/-- **No rule with the inconclusive code fails.** -/
theorem errorCode_ne_of_isFail (h : rule.verify ctx run = (.ok result, last))
    (fails : result.isFail = true) : result.rule.errorCode ≠ .inconclusive := by
  rw [rule_of_verify h]
  intro owns
  obtain ⟨present, hdemand⟩ := exists_ofPresence owns ctx
  rw [verify_of_settled hdemand] at h
  rw [← Except.ok.inj (Prod.mk.inj h).1] at fails
  cases present <;> simp [RuleResult.isFail, Verdict.ofPresence] at fails

end Rule

namespace RuleResult

variable {r : RuleResult}

theorem code_of_isFail (h : r.isFail = true) : r.code = some r.rule.errorCode := by
  rw [isFail, decide_eq_true_eq] at h
  rw [code, h]

theorem code_of_isInconclusive (h : r.isInconclusive = true) : r.code = some .inconclusive := by
  rw [isInconclusive, decide_eq_true_eq] at h
  rw [code, h]

end RuleResult

/-! ### The result of a verification -/

namespace VerificationResult

variable {ctx : Context} {policy : Policy} {run last : Run} {result : VerificationResult}

theorem errorCode?_of_ok (records : policy.Records ctx run result.last last)
    (ok : result.state = .ok) : result.errorCode? = none := by
  rw [errorCode?, decisive?, records.decisive_ok ok, Option.bind_none]

theorem errorCode?_of_inconclusive (records : policy.Records ctx run result.last last)
    (inconclusive : result.state = .inconclusive) : result.errorCode? = some .inconclusive := by
  obtain ⟨_, r, _, -, -, hopen, hdecisive⟩ := records.decisive_inconclusive inconclusive
  rw [errorCode?, decisive?, hdecisive, Option.bind_some, RuleResult.code_of_isInconclusive hopen]

theorem errorCode?_of_failed (records : policy.Records ctx run result.last last)
    (failed : result.state = .failed) :
    ∃ r ∈ result.last.results.getLast?, r.isFail = true ∧
      result.errorCode? = some r.rule.errorCode ∧ r.rule.errorCode ≠ .inconclusive := by
  obtain ⟨r, hr, hfails⟩ := records.failed.mp failed
  obtain ⟨rule, -, before, after, -, hverify⟩ :=
    records.inOrder.exists_of_mem (List.mem_of_getLast? hr)
  refine ⟨r, hr, hfails, ?_, Rule.errorCode_ne_of_isFail hverify hfails⟩
  rw [errorCode?, decisive?, records.decisive_failed failed, hr, Option.bind_some,
    RuleResult.code_of_isFail hfails]

theorem errorCode?_eq_none_iff (records : policy.Records ctx run result.last last) :
    result.errorCode? = none ↔ result.state = .ok := by
  cases hstate : result.state with
  | ok => simp [errorCode?_of_ok records hstate]
  | inconclusive => simp [errorCode?_of_inconclusive records hstate]
  | failed =>
      obtain ⟨r, -, -, hcode, -⟩ := errorCode?_of_failed records hstate
      simp [hcode]

theorem errorCode?_eq_inconclusive_iff (records : policy.Records ctx run result.last last) :
    result.errorCode? = some .inconclusive ↔ result.state = .inconclusive := by
  cases hstate : result.state with
  | ok => simp [errorCode?_of_ok records hstate]
  | inconclusive => simp [errorCode?_of_inconclusive records hstate]
  | failed =>
      obtain ⟨r, -, -, hcode, hother⟩ := errorCode?_of_failed records hstate
      simp [hcode, hother]

theorem exists_errorCode?_iff (records : policy.Records ctx run result.last last) :
    (∃ r ∈ result.last.results.getLast?, r.isFail = true ∧
      result.errorCode? = some r.rule.errorCode ∧ r.rule.errorCode ≠ .inconclusive) ↔
      result.state = .failed := by
  refine ⟨?_, errorCode?_of_failed records⟩
  rintro ⟨r, -, -, hcode, hother⟩
  cases hstate : result.state with
  | ok => simp [errorCode?_of_ok records hstate] at hcode
  | inconclusive =>
      rw [errorCode?_of_inconclusive records hstate] at hcode
      exact absurd (Option.some.inj hcode).symm hother
  | failed => rfl

end VerificationResult

namespace PolicyChain

/-- What the result of a verification says of it. -/
structure Records (chain : PolicyChain) (ctx : Context) (run : Run) (result : VerificationResult)
    (last : Run) : Prop where
  /-- The outcomes are those of the first policies, in order, each on the run that the one before
  it left. -/
  inOrder : Run.InOrder (Policy.Ends ctx) (chain.policies.take result.outcomes.length) run
    result.outcomes last
  nonempty : 1 ≤ result.outcomes.length
  within : result.outcomes.length ≤ chain.policies.length
  /-- All of them but the last are inconclusive. -/
  goesOn : ∀ o ∈ result.outcomes.dropLast, o.state = .inconclusive
  /-- The last is not, or it is that of the last policy of all. -/
  ended : result.outcomes.length = chain.policies.length ∨
    ∃ o ∈ result.outcomes.getLast?, o.state ≠ .inconclusive
  /-- The final state is the last outcome's. -/
  state : ∃ o ∈ result.outcomes.getLast?, result.state = o.state
  /-- A loop that keeps stages on the way has one to end in, in which the last policy has ended. -/
  stage : ∃ stages, track ctx chain.policies [] run = (.ok stages, last) ∧
    stages.getLast?.getD .pending = .ended result.state
  /-- The code tells the three states apart. -/
  code_ok : result.errorCode? = none ↔ result.state = .ok
  code_inconclusive :
    result.errorCode?.map ErrorCode.text = some "GEN-02" ↔ result.state = .inconclusive
  /-- A failure has the code of the rule that failed. -/
  code_failed : (∃ r ∈ result.last.results.getLast?, r.isFail = true ∧
      result.errorCode? = some r.rule.errorCode ∧ r.rule.errorCode.text ≠ "GEN-02") ↔
    result.state = .failed

/--
**A verification falls back until something is decided or no policy is left, and the code
tells which.**  If it comes to a result, the policies that were run are the first ones of
the chain, inconclusive up to the last.  No code is reported for ok, the inconclusive code
for inconclusive alone, and for a failure the code of the rule that failed.
-/
theorem verify_records {chain : PolicyChain} {ctx : Context} {run last : Run}
    {result : VerificationResult} (verified : chain.verify ctx run = (.ok result, last)) :
    chain.Records ctx run result last := by
  have huntil := until_of_verifyFrom verified
  have hlast := VerificationResult.getLast?_outcomes result
  obtain ⟨policy, -, before, after, hends⟩ :=
    huntil.inOrder.exists_of_mem (List.mem_of_getLast? hlast)
  have hrecords := Policy.records_of_run hends
  exact
    { inOrder := huntil.inOrder
      nonempty := by simp [VerificationResult.outcomes]
      within := huntil.within
      goesOn := fun o ho => by simpa [PolicyOutcome.isDecided] using huntil.goesOn o ho
      ended := huntil.ended.imp_right fun ⟨o, ho, hdecided⟩ =>
        ⟨o, ho, PolicyOutcome.isDecided_iff.mp hdecided⟩
      state := ⟨result.last, hlast, rfl⟩
      stage := ⟨_, track_of_verifyFrom [] verified, by
        rw [List.nil_append, List.getLast?_map, hlast]
        rfl⟩
      code_ok := VerificationResult.errorCode?_eq_none_iff hrecords
      code_inconclusive := by
        rw [← VerificationResult.errorCode?_eq_inconclusive_iff hrecords]
        simp [Option.map_eq_some_iff, ErrorCode.text_eq_inconclusive_iff]
      code_failed := by
        rw [← VerificationResult.exists_errorCode?_iff hrecords]
        simp only [ne_eq, ErrorCode.text_eq_inconclusive_iff] }

/-- A publication of the user's that the calendar does not lead to: it is no publication of the
signature's, and fails once the chain is extended to it. -/
theorem verify_records_anchoredContext :
    let ctx := anchoredContext { rootOfSecondThree with
      publishedHash := rootOfSecondOne.publishedHash }
    ∃ result last, userPublication.verify ctx (.start []) = (.ok result, last) ∧
      userPublication.Records ctx (.start []) result last ∧ result.outcomes.length = 2 ∧
      result.state = .failed ∧ result.errorCode? = some .extendedRootMismatch := by
  intro ctx
  have decided : (userPublication.verify ctx (.start [])).1.toOption.map
      (fun result => (result.outcomes.length, result.state, result.errorCode?)) =
        some (2, .failed, some .extendedRootMismatch) := by
    decide +kernel
  obtain ⟨result, hresult, hsays⟩ := Option.map_eq_some_iff.mp decided
  have verified : userPublication.verify ctx (.start []) = (.ok result, _) :=
    Prod.ext (toOption_eq_some_iff.mp hresult) rfl
  simp only [Prod.mk.injEq] at hsays
  exact ⟨result, _, verified, verify_records verified, hsays⟩

end PolicyChain

end Keyless
