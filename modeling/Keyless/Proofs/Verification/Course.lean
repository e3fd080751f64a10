/-
The course of a policy's run, and what its record says of it.

A verification has two loops of one shape.  Things are done one after another, each on
the run that the one before it left, up to the first that comes to something final
(`Run.Until`): rules up to one that ends the policy's run, policies up to one that
decides.  What such a loop leaves behind is said once, by what a single turn of it adds.

The record of a policy's run holds results only.  State, completeness and the result that
decided are read off them afterwards, each in its own way, and the point is that they
agree: a failure can only be the last result, because it ends the run, so the first
failure that a search finds is the one at which the run ended.  A loop that keeps its
stage on the way, with a flag for missing anchors (`Policy.track`), ends in the stage that
is read off the record.
-/
import Keyless.Proofs.Verification.Extension
import Keyless.Proofs.Verification.Robustness

namespace Keyless

/-! ### One after another, up to something final -/

namespace Run

variable {α β : Type}

/-- Things done one after another, each on the run that the one before it left, and what they come
to. -/
inductive InOrder (Does : α → Run → β → Run → Prop) : List α → Run → List β → Run → Prop where
  | nothing (run : Run) : InOrder Does [] run [] run
  | next {a : α} {rest : List α} {b : β} {others : List β} {run mid last : Run}
      (done : Does a run b mid) (further : InOrder Does rest mid others last) :
      InOrder Does (a :: rest) run (b :: others) last

variable {Does : α → Run → β → Run → Prop} {final : β → Bool} {a : α} {b : β} {items : List α}
  {results : List β} {run mid last : Run}

theorem InOrder.exists_of_mem (h : InOrder Does items run results last) (mem : b ∈ results) :
    ∃ a ∈ items, ∃ before after, Does a before b after := by
  induction h with
  | nothing run => exact absurd mem List.not_mem_nil
  | @next a rest b' others run mid last done further ih =>
      rcases List.mem_cons.mp mem with rfl | hothers
      · exact ⟨a, List.mem_cons_self, run, mid, done⟩
      · obtain ⟨a', ha', hdone⟩ := ih hothers
        exact ⟨a', List.mem_cons_of_mem a ha', hdone⟩

/-- Things done in order up to the first that comes to something final. -/
structure Until (Does : α → Run → β → Run → Prop) (final : β → Bool) (items : List α) (run : Run)
    (results : List β) (last : Run) : Prop where
  inOrder : InOrder Does (items.take results.length) run results last
  within : results.length ≤ items.length
  /-- Nothing before the end is final. -/
  goesOn : ∀ b ∈ results.dropLast, final b = false
  /-- The end is something final, or the end of everything. -/
  ended : results.length = items.length ∨ ∃ b ∈ results.getLast?, final b = true

theorem Until.nothing (run : Run) : Until Does final [] run [] run :=
  ⟨.nothing run, Nat.le_refl 0, fun _ h => absurd h List.not_mem_nil, Or.inl rfl⟩

theorem Until.here (done : Does a run b last) (ends : final b = true) :
    Until Does final (a :: items) run [b] last :=
  ⟨.next done (.nothing last), Nat.succ_le_succ (Nat.zero_le _),
    fun _ h => absurd h List.not_mem_nil, Or.inr ⟨b, rfl, ends⟩⟩

/-- **What one turn of the loop adds.** -/
theorem Until.further (done : Does a run b mid) (on : final b = false)
    (others : Until Does final items mid results last) :
    Until Does final (a :: items) run (b :: results) last where
  inOrder := .next done others.inOrder
  within := Nat.succ_le_succ others.within
  goesOn := by
    cases results with
    | nil => exact fun _ h => absurd h List.not_mem_nil
    | cons c rest => exact List.forall_mem_cons.mpr ⟨on, others.goesOn⟩
  ended := by
    refine others.ended.imp (congrArg Nat.succ) ?_
    rintro ⟨c, hc, hfinal⟩
    cases results with
    | nil => exact absurd hc (by simp)
    | cons d rest => exact ⟨c, by rwa [List.getLast?_cons_cons], hfinal⟩

end Run

/-! ### Rules -/

namespace Rule

variable {rule : Rule} {ctx : Context} {run last : Run} {result : RuleResult}

/-- The rule is evaluated on a run that goes on, and comes to a result. -/
def Reports (ctx : Context) (rule : Rule) (run : Run) (result : RuleResult) (last : Run) : Prop :=
  run.cancelled = false ∧ rule.verify ctx run = (.ok result, last)

/-- A rule that comes to a result leaves a run that goes on. -/
theorem goes_of_verify (goes : run.cancelled = false)
    (verified : rule.verify ctx run = (.ok result, last)) : last.cancelled = false := by
  cases hdemand : rule.demand ctx with
  | settled settled =>
      rw [verify_of_settled hdemand] at verified
      rw [← (Prod.mk.inj verified).2]
      exact goes
  | extended key judge =>
      rcases hcall : ctx.extendedChain key run with ⟨fatal | outcome, mid⟩ <;>
        rw [verify_of_extended hdemand hcall] at verified <;>
        obtain ⟨hconclude, rfl⟩ := Prod.mk.inj verified
      · exact absurd hconclude (by simp [conclude])
      · exact Context.goes_of_extendedChain hcall

end Rule

/-! ### Evaluating rules -/

namespace Policy

variable {stop : Bool} {ctx : Context} {rules : List Rule} {rule : Rule} {run mid last : Run}
  {results : List RuleResult}

/-- What can happen when an evaluation comes to a rule. -/
inductive Turn (stop : Bool) (ctx : Context) (rule : Rule) (run : Run) : Prop where
  | cancelled (cancelled : run.cancelled = true)
  | breaksOff {fatal : VerificationError} {mid : Run} (goes : run.cancelled = false)
      (broken : rule.verify ctx run = (.error fatal, mid))
  | ends {result : RuleResult} {mid : Run} (goes : run.cancelled = false)
      (verified : rule.verify ctx run = (.ok result, mid)) (ends : endsRun stop result = true)
  | goesOn {result : RuleResult} {mid : Run} (goes : run.cancelled = false)
      (verified : rule.verify ctx run = (.ok result, mid)) (on : ¬ endsRun stop result = true)

theorem turn (stop : Bool) (ctx : Context) (rule : Rule) (run : Run) : Turn stop ctx rule run := by
  by_cases hcancelled : run.cancelled = true
  · exact .cancelled hcancelled
  · have hgoes : run.cancelled = false := by simpa using hcancelled
    rcases hverify : rule.verify ctx run with ⟨fatal | result, mid⟩
    · exact .breaksOff hgoes hverify
    · by_cases hends : endsRun stop result = true
      · exact .ends hgoes hverify hends
      · exact .goesOn hgoes hverify hends

theorem evaluate_cons_of_cancelled (cancelled : run.cancelled = true) :
    evaluate stop ctx (rule :: rules) run = (.error .cancelled, run) := by
  rw [evaluate, if_pos cancelled]

theorem until_of_evaluate :
    ∀ {run : Run} {results : List RuleResult}, evaluate stop ctx rules run = (.ok results, last) →
      Run.Until (Rule.Reports ctx) (endsRun stop) rules run results last := by
  induction rules with
  | nil =>
      intro run results h
      obtain ⟨hresults, rfl⟩ := Prod.mk.inj h
      rw [← Except.ok.inj hresults]
      exact .nothing run
  | cons rule rest ih =>
      intro run results h
      cases turn stop ctx rule run with
      | cancelled cancelled =>
          rw [evaluate_cons_of_cancelled cancelled] at h
          exact absurd (Prod.mk.inj h).1 (by simp)
      | breaksOff goes broken =>
          rw [evaluate_cons_of_error goes broken] at h
          exact absurd (Prod.mk.inj h).1 (by simp)
      | ends goes verified ends =>
          rw [evaluate_cons_of_ends goes verified ends] at h
          obtain ⟨hresults, rfl⟩ := Prod.mk.inj h
          rw [← Except.ok.inj hresults]
          exact .here ⟨goes, verified⟩ ends
      | goesOn goes verified on =>
          rw [evaluate_cons_of_goes_on goes verified on] at h
          obtain ⟨hmap, hlast⟩ := Prod.mk.inj h
          obtain ⟨others, hothers, rfl⟩ := map_eq_ok_iff.mp hmap
          exact .further ⟨goes, verified⟩ (eq_false_of_ne_true on) (ih (Prod.ext hothers hlast))

/-- No rule that is come to is fatal. -/
def NoneFatal (stop : Bool) (ctx : Context) (rules : List Rule) (run : Run) : Prop :=
  ∀ rule mid fatal, ComesTo stop ctx rules run rule mid → (rule.verify ctx mid).1 ≠ .error fatal

/-- Rules none of which is fatal come to results. -/
theorem exists_evaluate_of_noneFatal :
    ∀ {run : Run}, run.cancelled = false → NoneFatal stop ctx rules run →
      ∃ results last, evaluate stop ctx rules run = (.ok results, last) := by
  induction rules with
  | nil =>
      intro run _ _
      exact ⟨[], run, rfl⟩
  | cons rule rest ih =>
      intro run goes noneFatal
      cases turn stop ctx rule run with
      | cancelled cancelled => exact absurd cancelled (by simp [goes])
      | @breaksOff fatal mid _ broken =>
          exact absurd (congrArg Prod.fst broken) (noneFatal rule run fatal (.first goes))
      | ends _ verified ends => exact ⟨_, _, evaluate_cons_of_ends goes verified ends⟩
      | @goesOn result mid _ verified on =>
          have hrest : NoneFatal stop ctx rest mid := fun other at' fatal comes =>
            noneFatal other at' fatal (.further goes verified on comes)
          obtain ⟨results, last, hresults⟩ := ih (Rule.goes_of_verify goes verified) hrest
          refine ⟨result :: results, last, ?_⟩
          rw [evaluate_cons_of_goes_on goes verified on, hresults]
          rfl

/-- And only such rules do. -/
theorem ComesTo.ne_error_of_evaluate (comes : ComesTo stop ctx rules run rule mid)
    {fatal : VerificationError} :
    ∀ {results : List RuleResult}, evaluate stop ctx rules run = (.ok results, last) →
      (rule.verify ctx mid).1 ≠ .error fatal := by
  induction comes with
  | first goes =>
      intro results evaluated hfatal
      rw [evaluate_cons_of_error goes (Prod.ext hfatal rfl)] at evaluated
      exact absurd (Prod.mk.inj evaluated).1 (by simp)
  | further goes verified on others ih =>
      intro results evaluated
      rw [evaluate_cons_of_goes_on goes verified on] at evaluated
      obtain ⟨hmap, hlast⟩ := Prod.mk.inj evaluated
      obtain ⟨others, hothers, -⟩ := map_eq_ok_iff.mp hmap
      exact ih (Prod.ext hothers hlast)

end Policy

/-! ### What is read off results -/

section Last

variable {α : Type} {p : α → Bool} {l : List α}

/-- Where nothing before the last is wanted, only the last can be found. -/
theorem exists_mem_iff_getLast? (before : ∀ a ∈ l.dropLast, p a = false) :
    (∃ a ∈ l, p a = true) ↔ ∃ a ∈ l.getLast?, p a = true := by
  refine ⟨?_, fun ⟨a, ha, hp⟩ => ⟨a, List.mem_of_getLast? ha, hp⟩⟩
  rintro ⟨a, ha, hp⟩
  obtain ⟨last, hlast⟩ := Option.isSome_iff_exists.mp
    (List.getLast?_isSome.mpr (List.ne_nil_of_mem ha))
  rw [← List.dropLast_append_getLast? last hlast, List.mem_append, List.mem_singleton] at ha
  rcases ha with hbefore | rfl
  · exact absurd hp (by simp [before a hbefore])
  · exact ⟨a, hlast, hp⟩

theorem find?_eq_getLast? (before : ∀ a ∈ l.dropLast, p a = false)
    (found : ∃ a ∈ l.getLast?, p a = true) : l.find? p = l.getLast? := by
  obtain ⟨last, hlast, hp⟩ := found
  have hnone : l.dropLast.find? p = none :=
    List.find?_eq_none.mpr fun a ha => by simp [before a ha]
  rw [hlast, ← List.dropLast_append_getLast? last hlast, List.find?_append, hnone,
    Option.none_or, List.find?_cons_of_pos hp]

end Last

theorem RuleResult.isInconclusive_of_isFail {r : RuleResult} (h : r.isFail = true) :
    r.isInconclusive = false := by
  rw [isFail, decide_eq_true_eq] at h
  simp [isInconclusive, h]

theorem Policy.endsRun_eq_false_iff {stop : Bool} {r : RuleResult} :
    endsRun stop r = false ↔ r.isFail = false ∧ (stop = true → r.isInconclusive = false) := by
  cases stop <;> simp [endsRun]

namespace PolicyOutcome

variable {o : PolicyOutcome}

theorem state_eq_failed_iff : o.state = .failed ↔ ∃ r ∈ o.results, r.isFail = true := by
  rw [← List.any_eq_true, state]
  by_cases hfail : o.results.any RuleResult.isFail = true
  · simp [hfail]
  · by_cases hopen : o.results.any RuleResult.isInconclusive = true <;> simp [hfail, hopen]

theorem state_eq_inconclusive_iff :
    o.state = .inconclusive ↔
      (∀ r ∈ o.results, r.isFail = false) ∧ ∃ r ∈ o.results, r.isInconclusive = true := by
  have hnone : (∀ r ∈ o.results, r.isFail = false) ↔ o.results.any RuleResult.isFail = false := by
    simp [List.any_eq_false]
  rw [← List.any_eq_true, hnone, state]
  by_cases hfail : o.results.any RuleResult.isFail = true
  · simp [hfail]
  · by_cases hopen : o.results.any RuleResult.isInconclusive = true <;> simp [hfail, hopen]

/-- An inconclusive state rests on the first missing anchor. -/
theorem decisive?_of_inconclusive (h : o.state = .inconclusive) :
    ∃ before r after, o.results = before ++ r :: after ∧
      (∀ b ∈ before, b.isInconclusive = false) ∧ r.isInconclusive = true ∧
      o.decisive? = some r := by
  obtain ⟨r, hr⟩ : ∃ r, o.results.find? RuleResult.isInconclusive = some r :=
    Option.isSome_iff_exists.mp (List.find?_isSome.mpr (state_eq_inconclusive_iff.mp h).2)
  obtain ⟨hopen, before, after, hresults, hbefore⟩ := List.find?_eq_some_iff_append.mp hr
  exact ⟨before, r, after, hresults, fun b hb => by simpa using hbefore b hb, hopen,
    by rw [decisive?, h]; exact hr⟩

end PolicyOutcome

/-! ### A stage kept on the way -/

/-- How far the run of a policy is. -/
inductive Stage where
  | pending
  | running
  | ended (state : PolicyState)
deriving DecidableEq, Repr

/-- What a loop over the rules may keep on the way, so that nothing need be looked for at the
end. -/
structure Progress where
  stage : Stage
  /-- Whether an anchor was missing. -/
  anchorMissing : Bool
  results : List RuleResult

namespace Progress

/-- Before the first rule. -/
def start : Progress := { stage := .running, anchorMissing := false, results := [] }

/-- The progress with one more result. -/
def add (p : Progress) (result : RuleResult) : Progress :=
  let p := { p with results := p.results ++ [result] }
  if result.isFail then { p with stage := .ended .failed }
  else if result.isInconclusive then { p with anchorMissing := true }
  else p

/-- The stage once the loop is left. -/
def conclude (p : Progress) : Stage :=
  match p.stage with
  | .running => .ended (if p.anchorMissing then .inconclusive else .ok)
  | stage => stage

theorem foldl_add (results : List RuleResult) : ∀ p : Progress,
    results.foldl add p =
      { stage := if results.any RuleResult.isFail then .ended .failed else p.stage
        anchorMissing := p.anchorMissing || results.any RuleResult.isInconclusive
        results := p.results ++ results } := by
  induction results with
  | nil =>
      intro p
      simp
  | cons r rest ih =>
      intro p
      rw [List.foldl_cons, ih, add]
      by_cases hfail : r.isFail = true
      · simp [hfail, RuleResult.isInconclusive_of_isFail hfail]
      · by_cases hopen : r.isInconclusive = true <;> simp [hfail, hopen]

end Progress

namespace Policy

variable {stop : Bool} {ctx : Context}

/-- Evaluates rules as `evaluate` does, and keeps the stage on the way. -/
def track (stop : Bool) (ctx : Context) :
    List Rule → Progress → Run → Except VerificationError Progress × Run
  | [], p, run => (.ok p, run)
  | rule :: rest, p, run =>
    if run.cancelled then (.error .cancelled, run)
    else
      match rule.verify ctx run with
      | (.error fatal, run) => (.error fatal, run)
      | (.ok result, run) =>
        if result.isFail then (.ok (p.add result), run)
        else if result.isInconclusive && stop then (.ok (p.add result), run)
        else track stop ctx rest (p.add result) run

/-- **A loop that keeps its stage does what the one that keeps results does.** -/
theorem track_eq (rules : List Rule) : ∀ (p : Progress) (run : Run),
    track stop ctx rules p run =
      ((evaluate stop ctx rules run).1.map fun results => results.foldl Progress.add p,
        (evaluate stop ctx rules run).2) := by
  induction rules with
  | nil =>
      intro p run
      rfl
  | cons rule rest ih =>
      intro p run
      rw [track]
      cases turn stop ctx rule run with
      | cancelled cancelled =>
          rw [evaluate_cons_of_cancelled cancelled, if_pos cancelled]
          rfl
      | breaksOff goes broken =>
          rw [evaluate_cons_of_error goes broken, if_neg (by simp [goes]), broken]
          rfl
      | @ends result mid goes verified ends =>
          rw [evaluate_cons_of_ends goes verified ends, if_neg (by simp [goes]), verified]
          by_cases hfail : result.isFail = true
          · simp only [hfail, if_true]
            rfl
          · have hopen : (result.isInconclusive && stop) = true := by
              simpa [endsRun, hfail, and_comm] using ends
            simp only [hfail, hopen, if_true]
            rfl
      | @goesOn result mid goes verified on =>
          obtain ⟨hfail, hopen⟩ := endsRun_eq_false_iff.mp (eq_false_of_ne_true on)
          have hon : (result.isInconclusive && stop) = false := by
            cases stop <;> simp_all
          rw [evaluate_cons_of_goes_on goes verified on, if_neg (by simp [goes]), verified]
          simp only [hfail, hon, ih]
          rcases evaluate stop ctx rest mid with ⟨fatal | results, last⟩ <;> rfl

/-! ### The record of a run -/

/-- What the record of a policy's run says of it. -/
structure Records (policy : Policy) (ctx : Context) (run : Run) (o : PolicyOutcome) (last : Run) :
    Prop where
  name : o.policy = policy.name
  /-- The results are those of the first rules, in order, each on the run that the one before it
  left. -/
  inOrder :
    Run.InOrder (Rule.Reports ctx) (policy.rules.take o.results.length) run o.results last
  within : o.results.length ≤ policy.rules.length
  /-- None of them but the last is a failure, or a missing anchor at which the policy stops. -/
  goesOn : ∀ r ∈ o.results.dropLast, r.isFail = false ∧
    (policy.stopOnInconclusive = true → r.isInconclusive = false)
  /-- The last is one of these, or the result of the last rule of all. -/
  ended : o.results.length = policy.rules.length ∨ ∃ r ∈ o.results.getLast?,
    r.isFail = true ∨ (policy.stopOnInconclusive = true ∧ r.isInconclusive = true)
  completed : o.completed = true ↔ o.results.length = policy.rules.length
  failed : o.state = .failed ↔ ∃ r ∈ o.results.getLast?, r.isFail = true
  inconclusive : o.state = .inconclusive ↔
    (∀ r ∈ o.results, r.isFail = false) ∧ ∃ r ∈ o.results, r.isInconclusive = true
  ok : o.state = .ok ↔ ∀ r ∈ o.results, r.isFail = false ∧ r.isInconclusive = false
  /-- The last result decides that the policy failed. -/
  decisive_failed : o.state = .failed → o.decisive? = o.results.getLast?
  /-- The first missing anchor decides that it is inconclusive. -/
  decisive_inconclusive : o.state = .inconclusive → ∃ before r after,
    o.results = before ++ r :: after ∧ (∀ b ∈ before, b.isInconclusive = false) ∧
      r.isInconclusive = true ∧ o.decisive? = some r
  decisive_ok : o.state = .ok → o.decisive? = none
  /-- A loop that keeps its stage on the way collects the same results and ends in this state. -/
  tracked : ∃ p, track policy.stopOnInconclusive ctx policy.rules .start run = (.ok p, last) ∧
    p.results = o.results ∧ p.conclude = .ended o.state

theorem exists_track {rules : List Rule} {run last : Run} {results : List RuleResult}
    (h : evaluate stop ctx rules run = (.ok results, last)) (name : String) (completed : Bool) :
    ∃ p, track stop ctx rules .start run = (.ok p, last) ∧ p.results = results ∧
      p.conclude = .ended (PolicyOutcome.state ⟨name, completed, results⟩) := by
  refine ⟨results.foldl Progress.add .start, by rw [track_eq, h]; rfl, ?_, ?_⟩
  · rw [Progress.foldl_add]
    rfl
  · rw [Progress.foldl_add, Progress.conclude, PolicyOutcome.state]
    by_cases hfail : results.any RuleResult.isFail = true
    · simp [hfail]
    · by_cases hopen : results.any RuleResult.isInconclusive = true <;>
        simp [hfail, hopen, Progress.start]

/-- **Every run that comes to an outcome is recorded so.** -/
theorem records_of_run {policy : Policy} {run last : Run} {o : PolicyOutcome}
    (h : policy.run ctx run = (.ok o, last)) : policy.Records ctx run o last := by
  rcases hevaluate : evaluate policy.stopOnInconclusive ctx policy.rules run with ⟨results, mid⟩
  rw [run_of_evaluate hevaluate] at h
  obtain ⟨houtcome, rfl⟩ := Prod.mk.inj h
  obtain ⟨results, rfl, rfl⟩ := map_eq_ok_iff.mp houtcome
  have huntil := until_of_evaluate hevaluate
  have hgoesOn := fun r hr => endsRun_eq_false_iff.mp (huntil.goesOn r hr)
  have hlast := exists_mem_iff_getLast? fun r hr => (hgoesOn r hr).1
  exact
    { name := rfl
      inOrder := huntil.inOrder
      within := huntil.within
      goesOn := hgoesOn
      ended := huntil.ended.imp_right fun ⟨r, hr, hends⟩ => ⟨r, hr, by simpa [endsRun] using hends⟩
      completed := by simp
      failed := PolicyOutcome.state_eq_failed_iff.trans hlast
      inconclusive := PolicyOutcome.state_eq_inconclusive_iff
      ok := by
        simp [PolicyOutcome.state_eq_ok_iff, Verdict.isClear_iff, RuleResult.isFail,
          RuleResult.isInconclusive]
      decisive_failed := fun hfailed => by
        rw [PolicyOutcome.decisive?, hfailed]
        exact find?_eq_getLast? (fun r hr => (hgoesOn r hr).1)
          (hlast.mp (PolicyOutcome.state_eq_failed_iff.mp hfailed))
      decisive_inconclusive := PolicyOutcome.decisive?_of_inconclusive
      decisive_ok := fun hok => by rw [PolicyOutcome.decisive?, hok]
      tracked := exists_track hevaluate _ _ }

/--
**The run of a policy and its record.**  Begun on a run that goes on, a policy none of
whose rules is fatal comes to an outcome.  Its results are those of the first rules, up to
the first failure or, where the policy stops there, the first missing anchor, and of all
rules if there is neither; and whether it is complete, what it ended in and which result
decided that agree with where it ended.
-/
theorem run_records {policy : Policy} {ctx : Context} {run : Run} (goes : run.cancelled = false)
    (noneFatal : NoneFatal policy.stopOnInconclusive ctx policy.rules run) :
    ∃ o last, policy.run ctx run = (.ok o, last) ∧ policy.Records ctx run o last := by
  obtain ⟨results, last, hevaluate⟩ := exists_evaluate_of_noneFatal goes noneFatal
  have hrun := run_of_evaluate hevaluate
  exact ⟨_, last, hrun, records_of_run hrun⟩

/-- An anchor is missing at the first of three rules, and the last one may fail. -/
def ownPublication : Policy :=
  ofRules "own-publication"
    [.authenticationRecordExists, .userPublicationTimeMatches, .userPublicationHash]

/-- It fails at the very last rule, complete and in spite of the missing anchor, on a publication
of the right time with another hash. -/
theorem run_records_ownPublication :
    let ctx := anchoredContext { rootOfSecondOne with
      publishedHash := rootOfSecondThree.publishedHash }
    NoneFatal ownPublication.stopOnInconclusive ctx ownPublication.rules (.start []) ∧
      ∃ o last, ownPublication.run ctx (.start []) = (.ok o, last) ∧
        ownPublication.Records ctx (.start []) o last ∧ o.state = .failed ∧ o.completed = true ∧
        o.decisive? = some { rule := .userPublicationHash, verdict := .fail } := by
  intro ctx
  have evaluated : (evaluate false ctx ownPublication.rules (.start [])).1 =
      .ok [{ rule := .authenticationRecordExists, verdict := .anchorUnavailable },
        { rule := .userPublicationTimeMatches, verdict := .ok },
        { rule := .userPublicationHash, verdict := .fail }] := by
    decide +kernel
  have noneFatal :
      NoneFatal ownPublication.stopOnInconclusive ctx ownPublication.rules (.start []) :=
    fun _ _ _ comes => comes.ne_error_of_evaluate (Prod.ext evaluated rfl)
  obtain ⟨o, last, hrun, hrecords⟩ := run_records rfl noneFatal
  obtain rfl := Except.ok.inj
    (Prod.mk.inj (hrun.symm.trans (run_of_evaluate (Prod.ext evaluated rfl)))).1
  exact ⟨noneFatal, _, last, hrun, hrecords, rfl, rfl, rfl⟩

end Policy

end Keyless
