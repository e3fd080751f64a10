/-
What may stop a verification, and what may not.

A verification stops without a verdict when a rule does.  A rule stops on a fault of what
it folds, and these are known (`Rule.faultsKnown_demand`); or the call for an extended
chain stops it, and while nothing cancels the run, a call does so only over a chain that
the service answered with and that departs from the signature's own past.  So every
reason is one that the signature itself carries, by being too much for its levels or its
index, or one that the service has brought in (`Context.MayStop`).  What a rule keeps of
a run and where it stops is said once, and carried through policies and their fallbacks.

A chain that cannot be had is no such reason.  Why it cannot be had is spelled out in
`Context.Fails`.  The rule that wants it is undecided, whatever it would have judged, so
that the policy that comes to the rule on that run cannot end in ok.
-/
import Keyless.Proofs.Verification.Faults
import Keyless.Proofs.Verification.Soundness

namespace Keyless

/-! ### Calls that nothing cancels -/

namespace Context

/-- What a request for a key comes to that is sent after those in a log. -/
def answerAfter (ctx : Context) (log : List ExtensionRequest) (key : ChainKey) :
    Except ExtensionFailure CalendarChain :=
  match ctx.permittedExtender with
  | .error failure => .error failure
  | .ok extender => ctx.timed (extender.answer log (ctx.request key))

/-- What a call for a key brings: the chain that is kept, or what a request comes to. -/
def brings (ctx : Context) (key : ChainKey) (run : Run) : Except ExtensionFailure CalendarChain :=
  match run.chain? key with
  | some chain => .ok chain
  | none => ctx.answerAfter run.log key

/-- Why a request for a key, sent after those in a log, brings no chain. -/
inductive Fails (ctx : Context) (key : ChainKey) (log : List ExtensionRequest) :
    ExtensionFailure → Prop where
  | notConfigured (absent : ctx.extender = none) : Fails ctx key log .notConfigured
  | notAllowed {extender : Extender} (service : ctx.extender = some extender)
      (forbidden : ctx.extendingAllowed = false) : Fails ctx key log .notAllowed
  | timedOut {extender : Extender} (permitted : ctx.permittedExtender = .ok extender)
      (late : ctx.timeout < (extender.answer log (ctx.request key)).delay) :
      Fails ctx key log (.timedOut ctx.timeout)
  | protocol {extender : Extender} {cause : ProtocolError}
      (permitted : ctx.permittedExtender = .ok extender)
      (inTime : (extender.answer log (ctx.request key)).delay ≤ ctx.timeout)
      (refused : (extender.answer log (ctx.request key)).result = .error cause) :
      Fails ctx key log (.protocol cause)

variable {ctx : Context} {start : List ExtensionRequest} {run : Run} {key : ChainKey}

theorem answerAfter_eq_error_iff {log : List ExtensionRequest} {failure : ExtensionFailure} :
    ctx.answerAfter log key = .error failure ↔ ctx.Fails key log failure := by
  unfold answerAfter
  refine ⟨fun h => ?_, fun h => ?_⟩
  · cases hpermitted : ctx.permittedExtender with
    | error refusal =>
        rw [hpermitted] at h
        rw [Except.error.inj h] at hpermitted
        unfold permittedExtender at hpermitted
        cases hservice : ctx.extender with
        | none =>
            rw [hservice] at hpermitted
            rw [← Except.error.inj hpermitted]
            exact .notConfigured hservice
        | some extender =>
            rw [hservice] at hpermitted
            by_cases hallowed : ctx.extendingAllowed = true
            · simp [hallowed] at hpermitted
            · simp only [hallowed] at hpermitted
              rw [← Except.error.inj hpermitted]
              exact .notAllowed hservice (by simpa using hallowed)
    | ok extender =>
        rw [hpermitted] at h
        rcases timed_eq_error_iff.mp h with ⟨hlate, rfl⟩ | ⟨hinTime, cause, hrefused, rfl⟩
        · exact .timedOut hpermitted hlate
        · exact .protocol hpermitted hinTime hrefused
  · cases h with
    | notConfigured absent => simp [permittedExtender, absent]
    | notAllowed service forbidden => simp [permittedExtender, service, forbidden]
    | timedOut permitted late =>
        rw [permitted]
        exact timed_eq_error_iff.mpr (Or.inl ⟨late, rfl⟩)
    | protocol permitted inTime refused =>
        rw [permitted]
        exact timed_eq_error_iff.mpr (Or.inr ⟨inTime, _, refused, rfl⟩)

theorem brings_eq_error_iff {failure : ExtensionFailure} :
    ctx.brings key run = .error failure ↔
      run.chain? key = none ∧ ctx.Fails key run.log failure := by
  unfold brings
  cases run.chain? key with
  | some chain => simp
  | none => simp [answerAfter_eq_error_iff]

/-- **A call that nothing cancels judges what it brings**, and leaves a run that nothing cancels,
with the chain kept if it brings one. -/
theorem extendedChain_of_unbound (goes : run.cancelled = false) (unbound : run.cancelAt = none)
    (key : ChainKey) :
    ∃ run', ctx.extendedChain key run = (ctx.judge key (ctx.brings key run), run') ∧
      run'.cancelled = false ∧ run'.cancelAt = none ∧
      ∀ chain, ctx.brings key run = .ok chain → run'.chain? key = some chain := by
  unfold extendedChain brings answerAfter
  rcases ctx.enquire_cases key run with ⟨hcancelled, -⟩ | ⟨-, chain, hkept, hcall⟩ |
    ⟨-, hnone, failure, hpermitted, hcall⟩ | ⟨-, hnone, extender, due, hpermitted, hcall⟩
  · exact absurd hcancelled (by simp [goes])
  · rw [hcall, hkept]
    refine ⟨run, rfl, goes, unbound, fun other h => ?_⟩
    rw [hkept, Except.ok.inj h]
  · rw [hcall, hnone, hpermitted]
    exact ⟨run, rfl, goes, unbound, fun other h => absurd h (by simp)⟩
  · rw [hcall, hnone, hpermitted]
    have hunbound : (ctx.asked key run).cancelledBefore? due = none := by
      rw [Run.cancelledBefore?, show (ctx.asked key run).cancelAt = none from unbound]
      rfl
    show ∃ run', ctx.settle _ (ctx.asked key run) = _ ∧ _
    rw [settle, hunbound]
    refine ⟨_, rfl, by rw [(landed_log _ _).2]; exact goes, ?_, fun chain h => ?_⟩
    · unfold landed
      cases ctx.timed _ <;> exact unbound
    · have hmissing : (ctx.asked key run).chain? key = none := hnone
      rw [chain?_landed, hmissing, if_pos rfl]
      exact toOption_eq_some_iff.mpr h

/-- What is judged stops a verification only if it is a chain that departs from the signature's
own past. -/
theorem judge_eq_error_iff {result : Except ExtensionFailure CalendarChain}
    {fatal : VerificationError} :
    ctx.judge key result = .error fatal ↔
      ∃ chain, result = .ok chain ∧ ctx.signature.agreesWith chain = false ∧
        .inconsistentCalendarChain ctx.signature.aggregationTime key = fatal := by
  cases result with
  | error failure => simp [judge]
  | ok chain =>
      rw [judge]
      cases hagrees : ctx.signature.agreesWith chain with
      | true => simp [hagrees]
      | false => simp [hagrees]

/-- **A call fails when no chain is kept and a request would bring none**, and for no other
reason. -/
theorem extendedChain_eq_failure_iff (goes : run.cancelled = false) (unbound : run.cancelAt = none)
    {failure : ExtensionFailure} :
    (ctx.extendedChain key run).1 = .ok (.error failure) ↔
      run.chain? key = none ∧ ctx.Fails key run.log failure := by
  obtain ⟨run', hcall, -⟩ := ctx.extendedChain_of_unbound goes unbound key
  rw [hcall, ← brings_eq_error_iff]
  cases ctx.brings key run with
  | error other => simp [judge]
  | ok chain => cases hagrees : ctx.signature.agreesWith chain <;> simp [judge, hagrees]

end Context

/-! ### Rules on such calls -/

namespace Rule

variable {rule : Rule} {ctx : Context} {run run' : Run} {key : ChainKey}
  {judge : CalendarChain → Except ChainError Verdict}

/-- What a rule makes of what a call comes to. -/
def conclude (rule : Rule) (judge : CalendarChain → Except ChainError Verdict) :
    ChainOutcome → Except VerificationError RuleResult
  | .error fatal => .error fatal
  | .ok (.error _) => .ok { rule, verdict := .anchorUnavailable }
  | .ok (.ok chain) => rule.report (judge chain)

theorem verify_of_extended (asks : rule.demand ctx = .extended key judge) {outcome : ChainOutcome}
    (call : ctx.extendedChain key run = (outcome, run')) :
    rule.verify ctx run = (rule.conclude judge outcome, run') := by
  rw [verify, asks]
  simp only [call]
  rcases outcome with fatal | failure | chain <;> rfl

theorem report_eq_error_iff {verdict : Except ChainError Verdict} {fatal : VerificationError} :
    rule.report verdict = .error fatal ↔
      ∃ fault, verdict = .error fault ∧ .chain fault = fatal := by
  cases verdict <;> simp [report]

/-- The rule wants a chain that cannot be had: none is kept, and a request brings none. -/
def IsDenied (rule : Rule) (ctx : Context) (run : Run) : Prop :=
  ∃ key judge failure, rule.demand ctx = .extended key judge ∧ run.cancelled = false ∧
    run.cancelAt = none ∧ run.chain? key = none ∧ ctx.Fails key run.log failure

/-- **A rule whose chain cannot be had is undecided**, neither stopped nor failed. -/
theorem verify_of_isDenied (h : rule.IsDenied ctx run) :
    (rule.verify ctx run).1 = .ok { rule, verdict := .anchorUnavailable } := by
  obtain ⟨key, judge, failure, hdemand, hgoes, hunbound, hmissing, hfails⟩ := h
  have hfailed := (Context.extendedChain_eq_failure_iff hgoes hunbound).mpr ⟨hmissing, hfails⟩
  rw [verify_of_extended hdemand (Prod.ext hfailed rfl)]
  rfl

end Rule

/-! ### What stops a verification -/

namespace Context

variable {ctx : Context} {start : List ExtensionRequest} {run : Run} {key : ChainKey}

/-- A run of the verification that goes on, with no cancellation set. -/
structure Undisturbed (ctx : Context) (start : List ExtensionRequest) (run : Run) : Prop where
  reached : ctx.Reaches start run
  goes : run.cancelled = false
  unbound : run.cancelAt = none

/-- What may stop a verification. -/
inductive MayStop (ctx : Context) (start log : List ExtensionRequest) :
    VerificationError → Prop where
  /-- The signature's own chains are too high, or one of them is too long for an index. -/
  | overflows {fault : ChainError} (overflows : ctx.signature.Overflows fault) :
      MayStop ctx start log (.chain fault)
  /-- The service has answered with a chain that does not keep the past of the signature's own. -/
  | departs {key : ChainKey} {own chain : CalendarChain}
      (answered : ctx.Answered start log key chain)
      (calendar : ctx.signature.calendarChain = some own)
      (departs : ¬ own.rightSiblings <+: chain.rightSiblings) :
      MayStop ctx start log
        (.inconsistentCalendarChain ctx.signature.aggregationTime key)
  /-- The service has answered with a chain that has a sibling of an algorithm without a
  function. -/
  | lacks {key : ChainKey} {chain : CalendarChain} {link : CalendarLink}
      (answered : ctx.Answered start log key chain) (mem : link ∈ chain.links)
      (missing : link.sibling.algorithm.isImplemented = false) :
      MayStop ctx start log (.chain (.notImplemented link.sibling.algorithm))

theorem Undisturbed.answered (h : ctx.Undisturbed start run) {chain : CalendarChain}
    (brought : ctx.brings key run = .ok chain) :
    ctx.Answered start (ctx.extendedChain key run).2.log key chain := by
  obtain ⟨run', hcall, -, -, hkept⟩ := ctx.extendedChain_of_unbound h.goes h.unbound key
  have hdelivered := (h.reached.call key).delivered
  rw [hcall] at hdelivered ⊢
  exact hdelivered.answered key chain (hkept chain brought)

theorem Undisturbed.verify (h : ctx.Undisturbed start run) (rule : Rule) :
    ctx.Undisturbed start (rule.verify ctx run).2 := by
  have hreached := h.reached.verify rule
  cases hdemand : rule.demand ctx with
  | settled verdict =>
      rw [Rule.verify_of_settled hdemand]
      exact h
  | extended key judge =>
      obtain ⟨run', hcall, hgoes, hunbound, -⟩ := ctx.extendedChain_of_unbound h.goes h.unbound key
      rw [Rule.verify_of_extended hdemand hcall] at hreached ⊢
      exact ⟨hreached, hgoes, hunbound⟩

/-- **A rule stops only for a reason that there may be.** -/
theorem Undisturbed.mayStop (h : ctx.Undisturbed start run) {rule : Rule}
    {fatal : VerificationError} {last : Run} (broken : rule.verify ctx run = (.error fatal, last)) :
    ctx.MayStop start last.log fatal := by
  have hknown := rule.faultsKnown_demand ctx
  cases hdemand : rule.demand ctx with
  | settled verdict =>
      rw [hdemand] at hknown
      rw [Rule.verify_of_settled hdemand] at broken
      obtain ⟨fault, hfault, rfl⟩ := Rule.report_eq_error_iff.mp (Prod.mk.inj broken).1
      exact .overflows (hknown fault hfault)
  | extended key judge =>
      rw [hdemand] at hknown
      obtain ⟨run', hcall, -⟩ := ctx.extendedChain_of_unbound h.goes h.unbound key
      have hanswered : ∀ chain, ctx.brings key run = .ok chain →
          ctx.Answered start last.log key chain := by
        intro chain hbrings
        have hrun : (ctx.extendedChain key run).2 = last := by
          rw [hcall]
          exact (Prod.mk.inj ((Rule.verify_of_extended hdemand hcall).symm.trans broken)).2
        rw [← hrun]
        exact h.answered hbrings
      rw [Rule.verify_of_extended hdemand hcall] at broken
      have hstops := (Prod.mk.inj broken).1
      cases hjudge : ctx.judge key (ctx.brings key run) with
      | error cause =>
          rw [hjudge] at hstops
          obtain rfl := Except.error.inj hstops
          obtain ⟨chain, hbrings, hdeparts, rfl⟩ := judge_eq_error_iff.mp hjudge
          obtain ⟨own, hown, hdeparts⟩ := Signature.agreesWith_eq_false_iff.mp hdeparts
          exact .departs (hanswered chain hbrings) hown hdeparts
      | ok outcome =>
          rw [hjudge] at hstops
          cases outcome with
          | error failure => exact absurd hstops (by simp [Rule.conclude])
          | ok chain =>
              obtain ⟨hbrings, -⟩ := judge_eq_ok_iff.mp hjudge
              obtain ⟨fault, hfault, rfl⟩ := Rule.report_eq_error_iff.mp hstops
              rcases hknown chain fault hfault with hown | ⟨link, hmem, hmissing, rfl⟩
              · exact .overflows hown
              · exact .lacks (hanswered chain hbrings) hmem hmissing

/-- Policies keep a run undisturbed, so verifications stop for no other reason either. -/
theorem Undisturbed.verification (h : ctx.Undisturbed start run) {chain : PolicyChain}
    {fatal : VerificationError} {last : Run}
    (broken : chain.verify ctx run = (.error fatal, last)) :
    ctx.MayStop start last.log fatal := by
  have hkept : ∀ (rule : Rule) (run : Run), ctx.Undisturbed start run →
      ctx.Undisturbed start (rule.verify ctx run).2 := fun rule _ h => h.verify rule
  have hgoes : ∀ run, ctx.Undisturbed start run → run.cancelled = false := fun _ h => h.goes
  obtain ⟨policy, -, before, hbefore, hpolicy⟩ :=
    PolicyChain.exists_of_verifyFrom_error (fun policy _ => Policy.run_kept hkept policy) h broken
  obtain ⟨rule, -, mid, hmid, hrule⟩ := Policy.exists_of_run_error hgoes hkept hbefore hpolicy
  exact hmid.mayStop hrule

end Context

/-! ### Policies that come to a rule whose chain cannot be had -/

namespace Policy

variable {stop : Bool} {ctx : Context} {rules : List Rule} {rule : Rule} {run mid : Run}

/-- Rules one after another come to a rule on a run: they have got as far without a stop, a failure
or whatever else ends an evaluation. -/
inductive ComesTo (stop : Bool) (ctx : Context) : List Rule → Run → Rule → Run → Prop where
  | first {rule : Rule} {rest : List Rule} {run : Run} (goes : run.cancelled = false) :
      ComesTo stop ctx (rule :: rest) run rule run
  | further {rule wanted : Rule} {rest : List Rule} {run mid last : Run} {result : RuleResult}
      (goes : run.cancelled = false) (verified : rule.verify ctx run = (.ok result, mid))
      (on : ¬ endsRun stop result = true) (others : ComesTo stop ctx rest mid wanted last) :
      ComesTo stop ctx (rule :: rest) run wanted last

/-- What a rule says that rules come to is among the results, if there are any. -/
theorem ComesTo.mem_of_evaluate (h : ComesTo stop ctx rules run rule mid) {result : RuleResult}
    (verified : (rule.verify ctx mid).1 = .ok result) {results : List RuleResult} {last : Run}
    (evaluated : evaluate stop ctx rules run = (.ok results, last)) : result ∈ results := by
  induction h generalizing results with
  | @first rule rest run goes =>
      by_cases hends : endsRun stop result = true
      · rw [evaluate_cons_of_ends goes (Prod.ext verified rfl) hends] at evaluated
        rw [← Except.ok.inj (Prod.mk.inj evaluated).1]
        exact List.mem_singleton.mpr rfl
      · rw [evaluate_cons_of_goes_on goes (Prod.ext verified rfl) hends] at evaluated
        obtain ⟨others, -, rfl⟩ := map_eq_ok_iff.mp (Prod.mk.inj evaluated).1
        exact List.mem_cons_self
  | further goes earlier on others ih =>
      rw [evaluate_cons_of_goes_on goes earlier on] at evaluated
      obtain ⟨hresults, hlast⟩ := Prod.mk.inj evaluated
      obtain ⟨others, hothers, rfl⟩ := map_eq_ok_iff.mp hresults
      exact List.mem_cons_of_mem _ (ih verified (Prod.ext hothers hlast))

/-- **A policy that comes to an undecided rule does not end in ok.** -/
theorem state_ne_ok_of_comesTo {policy : Policy}
    (comes : ComesTo policy.stopOnInconclusive ctx policy.rules run rule mid)
    (undecided : (rule.verify ctx mid).1 = .ok { rule, verdict := .anchorUnavailable })
    {outcome : PolicyOutcome} {last : Run} (ended : policy.run ctx run = (.ok outcome, last)) :
    outcome.state ≠ .ok := by
  intro ok
  rcases hevaluate : evaluate policy.stopOnInconclusive ctx policy.rules run with ⟨results, last'⟩
  rw [run_of_evaluate hevaluate] at ended
  obtain ⟨results', rfl, rfl⟩ := map_eq_ok_iff.mp (Prod.mk.inj ended).1
  have hmem := comes.mem_of_evaluate undecided hevaluate
  have hclear := PolicyOutcome.state_eq_ok_iff.mp ok _ hmem
  exact absurd hclear (by simp [Verdict.IsClear])

end Policy

/-! ### Robustness -/

namespace Context

/-- Verifications of a signature stop for known reasons only, and what cannot be had does not stop
them. -/
structure IsRobust (ctx : Context) : Prop where
  /-- Whatever the policies, a verification that nothing cancels stops only because the signature's
  chains are too high or too long, or because of a chain that the service answered with. -/
  stopped : ∀ (start : List ExtensionRequest) (run last : Run) (chain : PolicyChain)
    (fatal : VerificationError), ctx.Undisturbed start run →
    chain.verify ctx run = (.error fatal, last) → ctx.MayStop start last.log fatal
  /-- No such reason is about an encoding, an imprint, a digest or an unknown algorithm. -/
  kinds : ∀ (start log : List ExtensionRequest) (fault : ChainError),
    ctx.MayStop start log (.chain fault) →
    (∃ cause, fault = .computation cause) ∨ ∃ algorithm, fault = .notImplemented algorithm
  /-- A call fails for want of a service, of leave or of time, or on an error of the service. -/
  failures : ∀ (run : Run) (key : ChainKey) (failure : ExtensionFailure), run.cancelled = false →
    run.cancelAt = none →
    ((ctx.extendedChain key run).1 = .ok (.error failure) ↔
      run.chain? key = none ∧ ctx.Fails key run.log failure)
  /-- A failed call leaves the rule that asked undecided. -/
  undecided : ∀ (rule : Rule) (run : Run), rule.IsDenied ctx run →
    (rule.verify ctx run).1 = .ok { rule, verdict := .anchorUnavailable }
  /-- And a policy in which one happens does not end in ok. -/
  withheld : ∀ (policy : Policy) (run mid last : Run) (rule : Rule) (outcome : PolicyOutcome),
    Policy.ComesTo policy.stopOnInconclusive ctx policy.rules run rule mid →
    rule.IsDenied ctx mid → policy.run ctx run = (.ok outcome, last) → outcome.state ≠ .ok

/--
**Only what is known to stop a verification stops it.**  The chains of a signature can be
too high for their levels or too long for an index; chains that the service answers with
can depart from the signature's past or use an algorithm without a function.  A chain that
cannot be had stops nothing and fails nothing, but lets no policy end in ok.
-/
theorem isRobust (ctx : Context) : ctx.IsRobust where
  stopped _ _ _ _ _ undisturbed broken := undisturbed.verification broken
  kinds start log fault h := by
    cases h with
    | overflows overflows =>
        cases overflows with
        | tooHigh position high => exact Or.inl ⟨_, rfl⟩
        | tooLong mem long => exact Or.inl ⟨_, rfl⟩
    | lacks answered mem missing => exact Or.inr ⟨_, rfl⟩
  failures _ _ _ goes unbound := extendedChain_eq_failure_iff goes unbound
  undecided _ _ denied := Rule.verify_of_isDenied denied
  withheld _ _ _ _ _ _ comes denied ended :=
    Policy.state_ne_ok_of_comesTo comes (Rule.verify_of_isDenied denied) ended

/-- A service whose chain goes on with a hash that nothing here can be hashed with. -/
def strangeContext : Context :=
  { anchoredContext rootOfSecondThree with
    extender := some (Archive.extender
      { chains :=
          [calendarOfSecondOne 1
            [{ direction := .left, sibling := Imprint.uniform .sha3256 0x55 }]]
        delay := 0 }) }

/-- The same with no service to ask. -/
def unservedContext : Context := { strangeContext with extender := none }

/-- A policy that asks for a chain at once. -/
def timePolicy : Policy :=
  { name := "calendar-time", rules := [.calendarExtendedAggregationTime]
    stopOnInconclusive := true }

/-- Its answer stops the verification with the calendar database; having no answer withholds ok. -/
theorem isRobust_strangeContext :
    strangeContext.Undisturbed [] (.start []) ∧
      (∃ last, PolicyChain.calendarBased.verify strangeContext (.start []) =
        (.error (.chain (.notImplemented .sha3256)), last) ∧
        strangeContext.MayStop [] last.log (.chain (.notImplemented .sha3256))) ∧
      Rule.calendarExtendedAggregationTime.IsDenied unservedContext (.start []) ∧
      ∃ outcome last, timePolicy.run unservedContext (.start []) = (.ok outcome, last) ∧
        outcome.state ≠ .ok := by
  have undisturbed : strangeContext.Undisturbed [] (.start []) := ⟨.start, rfl, rfl⟩
  have broken : (PolicyChain.calendarBased.verify strangeContext (.start [])).1 =
      .error (.chain (.notImplemented .sha3256)) := by
    decide +kernel
  have denied : Rule.calendarExtendedAggregationTime.IsDenied unservedContext (.start []) :=
    ⟨_, _, _, rfl, rfl, rfl, rfl, .notConfigured rfl⟩
  have mayStop := strangeContext.isRobust.stopped [] _ _ _ _ undisturbed (Prod.ext broken rfl)
  have withheld := unservedContext.isRobust.withheld timePolicy _ _ _ _ _ (.first rfl) denied rfl
  exact ⟨undisturbed, ⟨_, Prod.ext broken rfl, mayStop⟩, denied, _, _, rfl, withheld⟩

end Context

end Keyless
