/-
Where rules leave a policy.

Whoever asks only for the state in which a policy ends, or for the error in place of
one, does not see which rules were evaluated or what they are called.  With a service
that answers by the request alone, each rule adds to the state what its demand comes to,
and what rules add one after another is put together by one operation
(`Standing.followedBy`).  So a policy that goes on behind missing anchors can be taken
apart anywhere in its list of rules (`Context.Mirrors.state_of_policy`,
`Context.standing_append`).

The rules of internal consistency leave a policy at ok or end it: they ask for nothing,
and there is no anchor that they could miss.  Rules that ask for a chain do not end a
policy unless a chain is delivered that they do not accept.
-/
import Keyless.Proofs.Aggregation.Binding
import Keyless.Proofs.Verification.Transparency

namespace Keyless

/-! ### Where rules leave a policy -/

/-- The state of a policy all of whose rules come to the verdict. -/
def Verdict.state : Verdict → PolicyState
  | .ok | .notApplicable => .ok
  | .fail => .failed
  | .anchorUnavailable => .inconclusive

theorem Verdict.state_eq_ok_iff {v : Verdict} : v.state = .ok ↔ v.IsClear := by
  cases v <;> simp [state, IsClear]

/-- Where rules leave a policy: in a state, or broken off. -/
abbrev Standing := Except VerificationError PolicyState

namespace Standing

/-- Where a rule's verdict leaves a policy. -/
def ofVerdict : Except ChainError Verdict → Standing
  | .ok verdict => .ok verdict.state
  | .error cause => .error (.chain cause)

/-- Where a policy is left by whether something is there. -/
def ofPresence (present : Bool) : Standing := ofVerdict (.ok (.ofPresence present))

theorem ofVerdict_eq_ok_iff {verdict : Except ChainError Verdict} :
    ofVerdict verdict = .ok .ok ↔ ∃ v, verdict = .ok v ∧ v.IsClear := by
  cases verdict <;> simp [ofVerdict, Verdict.state_eq_ok_iff]

theorem ofVerdict_ne_inconclusive {verdict : Except ChainError Verdict}
    (decided : verdict ≠ .ok .anchorUnavailable) : ofVerdict verdict ≠ .ok .inconclusive := by
  rcases verdict with _ | _ | _ | _ | _ <;> simp_all [ofVerdict, Verdict.state]

/-- Rules and then others.  A failure is final, and so is a missing anchor unless a failure or an
error follows. -/
def followedBy : Standing → Standing → Standing
  | .error fatal, _ => .error fatal
  | .ok .failed, _ => .ok .failed
  | .ok .ok, next => next
  | .ok .inconclusive, .ok .ok => .ok .inconclusive
  | .ok .inconclusive, next => next

theorem followedBy_assoc (first second third : Standing) :
    (first.followedBy second).followedBy third = first.followedBy (second.followedBy third) := by
  rcases first with _ | _ | _ | _ <;> rcases second with _ | _ | _ | _ <;>
    rcases third with _ | _ | _ | _ <;> rfl

@[simp] theorem ok_followedBy (next : Standing) : followedBy (.ok .ok) next = next := rfl

@[simp] theorem followedBy_ok (standing : Standing) : standing.followedBy (.ok .ok) = standing := by
  rcases standing with _ | _ | _ | _ <;> rfl

/-- Where rules leave a policy, each after the one before it. -/
def together (standings : List Standing) : Standing := standings.foldr followedBy (.ok .ok)

theorem together_cons (first : Standing) (rest : List Standing) :
    together (first :: rest) = first.followedBy (together rest) := rfl

theorem together_append (standings others : List Standing) :
    together (standings ++ others) = (together standings).followedBy (together others) := by
  induction standings with
  | nil => rfl
  | cons first rest ih => rw [List.cons_append, together_cons, together_cons, ih, followedBy_assoc]

theorem together_eq_ok_iff {standings : List Standing} :
    together standings = .ok .ok ↔ ∀ standing ∈ standings, standing = .ok .ok := by
  induction standings with
  | nil => exact iff_of_true rfl (by simp)
  | cons first rest ih =>
      rw [together_cons, List.forall_mem_cons, ← ih]
      rcases first with _ | _ | _ | _ <;> rcases together rest with _ | _ | _ | _ <;>
        simp [followedBy]

/-- The policy has neither failed nor broken off. -/
def GoesOn (standing : Standing) : Prop := ∃ state, standing = .ok state ∧ state ≠ .failed

theorem goesOn_ofVerdict_iff {verdict : Except ChainError Verdict}
    (decided : verdict ≠ .ok .anchorUnavailable) :
    (ofVerdict verdict).GoesOn ↔ ∃ v, verdict = .ok v ∧ v.IsClear := by
  rcases verdict with _ | _ | _ | _ | _ <;>
    simp_all [GoesOn, ofVerdict, Verdict.state, Verdict.IsClear]

theorem goesOn_ofPresence (present : Bool) : (ofPresence present).GoesOn := by
  cases present
  · exact ⟨.inconclusive, rfl, by decide⟩
  · exact ⟨.ok, rfl, by decide⟩

theorem goesOn_followedBy_iff {first next : Standing} :
    (first.followedBy next).GoesOn ↔ first.GoesOn ∧ next.GoesOn := by
  rcases first with _ | _ | _ | _ <;> rcases next with _ | _ | _ | _ <;> simp [followedBy, GoesOn]

/-- A policy goes on behind rules when it goes on behind each of them. -/
theorem goesOn_together_iff {standings : List Standing} :
    (together standings).GoesOn ↔ ∀ standing ∈ standings, standing.GoesOn := by
  induction standings with
  | nil => exact iff_of_true ⟨.ok, rfl, by decide⟩ (by simp)
  | cons first rest ih => rw [together_cons, goesOn_followedBy_iff, List.forall_mem_cons, ih]

/-- A missing anchor in between shows where it is all that there is to show. -/
theorem followedBy_missing {first next : Standing} (other : first.followedBy next ≠ .ok .ok) :
    first.followedBy (followedBy (.ok .inconclusive) next) = first.followedBy next := by
  rcases first with _ | _ | _ | _ <;> rcases next with _ | _ | _ | _ <;>
    simp_all [followedBy]

/-- What follows a missing anchor shows only where the policy does not go on behind it. -/
theorem followedBy_missing_eq_iff {first next : Standing} (decided : first ≠ .ok .inconclusive) :
    first.followedBy (followedBy (.ok .inconclusive) next) =
        first.followedBy (.ok .inconclusive) ↔ (first = .ok .ok → next.GoesOn) := by
  rcases first with _ | _ | _ | _ <;> rcases next with _ | _ | _ | _ <;>
    simp_all [followedBy, GoesOn]

/-- An anchor is missing only where one of the rules missed it. -/
theorem together_ne_inconclusive {standings : List Standing}
    (decided : ∀ standing ∈ standings, standing ≠ .ok .inconclusive) :
    together standings ≠ .ok .inconclusive := by
  induction standings with
  | nil => exact fun h => absurd (Except.ok.inj h) (by decide)
  | cons first rest ih =>
      rw [List.forall_mem_cons] at decided
      have hfirst := decided.1
      have hrest := ih decided.2
      rw [together_cons]
      rcases first with _ | _ | _ | _ <;> simp_all [followedBy]

end Standing

/-- Where a demand leaves a policy, if the service answers by the request alone. -/
def Demand.standing (ctx : Context) : Demand → Standing
  | .settled verdict => .ofVerdict verdict
  | .extended key judge =>
    match ctx.judge key (ctx.steadyAnswer key) with
    | .error fatal => .error fatal
    | .ok (.error _) => .ok .inconclusive
    | .ok (.ok chain) => .ofVerdict (judge chain)

theorem Rule.state_of_outcome (rule : Rule) (ctx : Context) :
    (rule.outcome ctx).map (·.verdict.state) = (rule.demand ctx).standing ctx := by
  have hreport : ∀ verdict,
      (rule.report verdict).map (·.verdict.state) = Standing.ofVerdict verdict := by
    rintro (_ | _) <;> rfl
  unfold outcome
  cases rule.demand ctx with
  | settled verdict => exact hreport verdict
  | extended key judge =>
      simp only [Demand.standing]
      rcases ctx.judge key (ctx.steadyAnswer key) with fatal | failure | chain
      · rfl
      · rfl
      · exact hreport (judge chain)

/-- A result before others. -/
theorem PolicyOutcome.state_cons (name : String) (completed : Bool) (result : RuleResult)
    (results : List RuleResult) :
    .ok (state ⟨name, completed, result :: results⟩) =
      Standing.followedBy (.ok result.verdict.state) (.ok (state ⟨name, completed, results⟩)) := by
  obtain ⟨rule, verdict⟩ := result
  unfold state
  by_cases hfail : results.any RuleResult.isFail = true <;>
    by_cases hopen : results.any RuleResult.isInconclusive = true <;>
    cases verdict <;>
    simp [hfail, hopen, RuleResult.isFail, RuleResult.isInconclusive, Verdict.state,
      Standing.followedBy]

namespace Context

variable {ctx : Context} {run : Run}

/-- Where rules leave a policy, if the service answers by the request alone. -/
def standing (ctx : Context) (rules : List Rule) : Standing :=
  Standing.together (rules.map fun rule => (rule.demand ctx).standing ctx)

theorem standing_append (rules others : List Rule) :
    ctx.standing (rules ++ others) = (ctx.standing rules).followedBy (ctx.standing others) := by
  rw [standing, List.map_append, Standing.together_append]
  rfl

theorem state_of_tally (name : String) (rules : List Rule) :
    ∀ completed : List RuleResult → Bool,
      (Policy.tally false (Rule.outcome ctx) rules).map
        (fun results => PolicyOutcome.state ⟨name, completed results, results⟩) =
          ctx.standing rules := by
  induction rules with
  | nil =>
      intro completed
      rfl
  | cons rule rest ih =>
      intro completed
      show _ = Standing.followedBy ((rule.demand ctx).standing ctx) (ctx.standing rest)
      rw [← rule.state_of_outcome ctx, Policy.tally]
      rcases rule.outcome ctx with fatal | result
      · rfl
      · by_cases hfail : result.verdict = .fail
        · -- A failure ends the run, and is all that counts.
          have hends : Policy.endsRun false result = true := by
            simp [Policy.endsRun, RuleResult.isFail, hfail]
          simp only [if_pos hends, Except.map]
          rw [PolicyOutcome.state_cons, hfail]
          rfl
        · have hon : ¬ Policy.endsRun false result = true := by
            simp [Policy.endsRun, RuleResult.isFail, hfail]
          rw [← ih fun results => completed (result :: results)]
          simp only [if_neg hon]
          rcases Policy.tally false (Rule.outcome ctx) rest with fatal | results
          · revert hfail
            simp only [Except.map]
            cases result.verdict <;> simp [Verdict.state, Standing.followedBy]
          · exact PolicyOutcome.state_cons name _ result results

/-- **The state of a policy that goes on behind missing anchors** is put together from what its
rules demand. -/
theorem Mirrors.state_of_policy (steady : ctx.IsSteady) (h : ctx.Mirrors run) {policy : Policy}
    (goesOn : policy.stopOnInconclusive = false) :
    (((PolicyChain.single policy).verify ctx run).1).map VerificationResult.state =
      ctx.standing policy.rules := by
  rw [(h.chain steady (.single policy)).1, ← state_of_tally policy.name policy.rules
    fun results => decide (results.length = policy.rules.length)]
  show ((policy.outcome ctx).map _).map VerificationResult.state = _
  rw [Policy.outcome, goesOn]
  rcases Policy.tally false (Rule.outcome ctx) policy.rules with _ | _ <;> rfl

end Context

/-! ### Rules that miss no anchor -/

namespace Verdict

/-- A check either passes or fails. -/
theorem ofCheck_ne (passed : Bool) : ofCheck passed ≠ .anchorUnavailable := by
  cases passed <;> decide

theorem bind_ofCheck_ne {α : Type} {step : Except ChainError α} {check : α → Bool} :
    (step >>= fun a => pure (ofCheck (check a))) ≠ .ok .anchorUnavailable := by
  intro h
  obtain ⟨a, -, hcheck⟩ := bind_pure_eq_ok_iff.mp h
  exact ofCheck_ne _ hcheck

end Verdict

namespace Signature

variable {s : Signature}

theorem timestampVerdict_ne {check : TimestampRecord → Bool} :
    s.timestampVerdict check ≠ .anchorUnavailable := by
  unfold timestampVerdict
  cases s.timestampRecord with
  | none => simp
  | some record => exact Verdict.ofCheck_ne _

theorem timestampOutputVerdict_ne : s.timestampOutputVerdict ≠ .ok .anchorUnavailable := by
  unfold timestampOutputVerdict
  cases s.timestampRecord with
  | none => simp
  | some record => exact Verdict.bind_ofCheck_ne

theorem calendarVerdict_ne {check : CalendarChain → Except ChainError Bool} :
    s.calendarVerdict check ≠ .ok .anchorUnavailable := by
  unfold calendarVerdict
  cases s.calendarChain with
  | none => simp
  | some calendar => exact Verdict.bind_ofCheck_ne

theorem recordVerdict_ne {root : Option PublicationData}
    {check : CalendarChain → PublicationData → Except ChainError Bool} :
    s.recordVerdict root check ≠ .ok .anchorUnavailable := by
  unfold recordVerdict
  cases s.calendarChain with
  | none => simp
  | some calendar =>
      cases root with
      | none => simp
      | some data => exact Verdict.bind_ofCheck_ne

theorem metadataVerdict_ne : s.metadataVerdict ≠ .anchorUnavailable := by
  unfold metadataVerdict
  split
  · split <;> decide
  · decide

end Signature

namespace Context

variable {ctx : Context}

theorem documentAlgorithmVerdict_ne : ctx.documentAlgorithmVerdict ≠ .anchorUnavailable := by
  unfold documentAlgorithmVerdict
  cases ctx.documentHash with
  | none => simp
  | some document => exact Verdict.ofCheck_ne _

theorem documentHashVerdict_ne : ctx.documentHashVerdict ≠ .anchorUnavailable := by
  unfold documentHashVerdict
  cases ctx.documentHash with
  | none => simp
  | some document => exact Verdict.ofCheck_ne _

theorem inputLevelVerdict_ne : ctx.inputLevelVerdict ≠ .anchorUnavailable := by
  unfold inputLevelVerdict
  split
  · decide
  · exact Verdict.ofCheck_ne _

/-- **The rules of internal consistency miss no anchor.** -/
theorem internal_decided (ctx : Context) {rule : Rule}
    (internal : rule ∈ Policy.internalRules) :
    ∃ outcome, rule.demand ctx = .settled outcome ∧ outcome ≠ .ok .anchorUnavailable := by
  have settled : ∀ {verdict : Verdict}, verdict ≠ .anchorUnavailable →
      (.ok verdict : Except ChainError Verdict) ≠ .ok .anchorUnavailable :=
    fun h heq => h (Except.ok.inj heq)
  cases rule with
  | documentHashAlgorithm => exact ⟨_, rfl, settled documentAlgorithmVerdict_ne⟩
  | documentHash => exact ⟨_, rfl, settled documentHashVerdict_ne⟩
  | inputHashLevel => exact ⟨_, rfl, settled inputLevelVerdict_ne⟩
  | inputHashAlgorithmDeprecated | aggregationAlgorithmDeprecated | aggregationChainTime =>
      exact ⟨_, rfl, settled (Verdict.ofCheck_ne _)⟩
  | timestampInternalAlgorithmsDeprecated | timestampOutputAlgorithmDeprecated
  | timestampRecordIndex | timestampRecordTime =>
      exact ⟨_, rfl, settled Signature.timestampVerdict_ne⟩
  | aggregationChainInputHash => exact ⟨_, rfl, Signature.timestampOutputVerdict_ne⟩
  | aggregationChainIndexSuccessor =>
      exact ⟨_, rfl, indexSuccessorVerdict_ne (by decide) (by decide)⟩
  | aggregationChainMetadata => exact ⟨_, rfl, settled Signature.metadataVerdict_ne⟩
  | aggregationChainConsistency =>
      exact ⟨_, rfl, consistencyVerdict_ne (by decide) (by decide) 0⟩
  | aggregationChainIndex => exact ⟨_, rfl, indexVerdict_ne (by decide) (by decide)⟩
  | calendarInputHash | calendarAggregationTime | calendarRegistrationTime
  | calendarAlgorithmObsolete => exact ⟨_, rfl, Signature.calendarVerdict_ne⟩
  | publicationRecordTime | publicationRecordHash | authenticationRecordTime
  | authenticationRecordHash => exact ⟨_, rfl, Signature.recordVerdict_ne⟩
  | _ => exact absurd internal (by decide)

/-- The rules of internal consistency leave a policy at ok when the context is consistent. -/
theorem isConsistent_iff : ctx.IsConsistent ↔ ctx.standing Policy.internalRules = .ok .ok := by
  rw [standing, Standing.together_eq_ok_iff, List.forall_mem_map]
  refine forall₂_congr fun rule hrule => ?_
  obtain ⟨outcome, asks, -⟩ := ctx.internal_decided hrule
  rw [asks, Demand.standing, Standing.ofVerdict_eq_ok_iff, Rule.Holds]
  simp [asks]

theorem standing_internalRules_ne : ctx.standing Policy.internalRules ≠ .ok .inconclusive := by
  refine Standing.together_ne_inconclusive ?_
  rw [List.forall_mem_map]
  intro rule hrule
  obtain ⟨outcome, asks, decided⟩ := ctx.internal_decided hrule
  rw [asks]
  exact Standing.ofVerdict_ne_inconclusive decided

/-! ### Rules that ask for a chain -/

/-- A rule that asks for a chain leaves it at a missing anchor if there is none, and otherwise goes
on behind a chain that it accepts. -/
theorem goesOn_standing_extended_iff {rule : Rule} {key : ChainKey}
    {judge : CalendarChain → Except ChainError Verdict}
    (asks : rule.demand ctx = .extended key judge)
    (decided : ∀ chain, judge chain ≠ .ok .anchorUnavailable) :
    ((rule.demand ctx).standing ctx).GoesOn ↔
      ∀ chain, ctx.steadyAnswer key = .ok chain →
        ctx.signature.agreesWith chain = true ∧ rule.Accepts ctx key chain := by
  simp only [Rule.accepts_iff asks]
  rw [asks, Demand.standing]
  cases ctx.steadyAnswer key with
  | error failure => exact iff_of_true ⟨.inconclusive, rfl, by decide⟩ (by simp)
  | ok chain =>
      by_cases hagrees : ctx.signature.agreesWith chain = true
      · simp only [Context.judge, if_pos hagrees, Standing.goesOn_ofVerdict_iff (decided chain)]
        simp [hagrees]
      · simp [Context.judge, hagrees, Standing.GoesOn]

/-- So do rules that ask for one chain. -/
theorem goesOn_standing_iff_of_extended {key : ChainKey} {rules : List Rule}
    (some_rule : rules ≠ [])
    (asks : ∀ rule ∈ rules, ∃ judge, rule.demand ctx = .extended key judge ∧
      ∀ chain, judge chain ≠ .ok .anchorUnavailable) :
    (ctx.standing rules).GoesOn ↔ ∀ chain, ctx.steadyAnswer key = .ok chain →
      ctx.signature.agreesWith chain = true ∧ ∀ rule ∈ rules, rule.Accepts ctx key chain := by
  rw [standing, Standing.goesOn_together_iff, List.forall_mem_map]
  refine ⟨fun h chain hchain => ?_, fun h rule hrule => ?_⟩
  · have each : ∀ rule ∈ rules,
        ctx.signature.agreesWith chain = true ∧ rule.Accepts ctx key chain := by
      intro rule hrule
      obtain ⟨judge, hjudge, decided⟩ := asks rule hrule
      exact (goesOn_standing_extended_iff hjudge decided).mp (h rule hrule) chain hchain
    obtain ⟨first, hfirst⟩ := List.exists_mem_of_ne_nil rules some_rule
    exact ⟨(each first hfirst).1, fun rule hrule => (each rule hrule).2⟩
  · obtain ⟨judge, hjudge, decided⟩ := asks rule hrule
    exact (goesOn_standing_extended_iff hjudge decided).mpr
      fun chain hchain => ⟨(h chain hchain).1, (h chain hchain).2 rule hrule⟩

end Context

end Keyless
