/-
Stopping at the first missing anchor.

A policy may stop where an anchor is missing instead of going on to rules that might fail.
Both runs do the same up to there, and one goes on where the other has stopped.  What they
have gathered stays, the missing anchor among it, so going on does not lead to ok either: a
stop may spare a failure or a fault, but it gives no ok that would not be given without it.

How far two runs are the same has to be said also when one of them breaks off, and then
there are no results to compare.  So an evaluation is done over, as one that keeps what it
had gathered (`Policy.gather`).

All this is about one policy.  Where there are others to fall back on a stop can lead to
ok, since a failure would have ended the verification and a missing anchor does not.
-/
import Keyless.Proofs.Verification.Course

namespace Keyless

namespace Policy

/-! ### Gathering results -/

/-- An evaluation of rules with what it had gathered, however it ended. -/
structure Gathering where
  results : List RuleResult
  /-- What it broke off for, if it did. -/
  fatal? : Option VerificationError
  last : Run

namespace Gathering

/-- The same with results from before. -/
def onto (earlier : List RuleResult) (g : Gathering) : Gathering :=
  { g with results := earlier ++ g.results }

@[simp] theorem results_onto (earlier : List RuleResult) (g : Gathering) :
    (g.onto earlier).results = earlier ++ g.results := rfl

@[simp] theorem fatal?_onto (earlier : List RuleResult) (g : Gathering) :
    (g.onto earlier).fatal? = g.fatal? := rfl

@[simp] theorem last_onto (earlier : List RuleResult) (g : Gathering) :
    (g.onto earlier).last = g.last := rfl

@[simp] theorem onto_onto (earlier later : List RuleResult) (g : Gathering) :
    (g.onto later).onto earlier = g.onto (earlier ++ later) := by
  simp [onto]

/-- What the evaluation comes to. -/
def outcome (g : Gathering) : Except VerificationError (List RuleResult) :=
  match g.fatal? with
  | some fatal => .error fatal
  | none => .ok g.results

theorem outcome_onto (earlier : List RuleResult) (g : Gathering) :
    (g.onto earlier).outcome = g.outcome.map (earlier ++ ·) := by
  cases hfatal : g.fatal? <;> simp [outcome, hfatal, Except.map]

theorem results_of_outcome {g : Gathering} {results : List RuleResult}
    (h : g.outcome = .ok results) : g.results = results := by
  cases hfatal : g.fatal? with
  | none => simpa [outcome, hfatal] using h
  | some fatal => simp [outcome, hfatal] at h

/-- The evaluation ended at a missing anchor. -/
structure StoppedFor (g : Gathering) (r : RuleResult) : Prop where
  ended : g.fatal? = none
  last : r ∈ g.results.getLast?
  missing : r.isInconclusive = true

theorem StoppedFor.onto {g : Gathering} {r : RuleResult} (h : g.StoppedFor r)
    (earlier : List RuleResult) : (g.onto earlier).StoppedFor r where
  ended := h.ended
  last := by
    rw [results_onto, List.getLast?_append, Option.mem_def.mp h.last]
    rfl
  missing := h.missing

end Gathering

variable {stop : Bool} {ctx : Context} {rule : Rule} {rest : List Rule} {run mid : Run}
  {result : RuleResult}

/-- Evaluates rules as `evaluate` does, and keeps the results also where it breaks off. -/
def gather (stop : Bool) (ctx : Context) : List Rule → Run → Gathering
  | [], run => ⟨[], none, run⟩
  | rule :: rest, run =>
    if run.cancelled then ⟨[], some .cancelled, run⟩
    else
      match rule.verify ctx run with
      | (.error fatal, run) => ⟨[], some fatal, run⟩
      | (.ok result, run) =>
        if endsRun stop result then ⟨[result], none, run⟩
        else (gather stop ctx rest run).onto [result]

theorem gather_cons_of_cancelled (cancelled : run.cancelled = true) :
    gather stop ctx (rule :: rest) run = ⟨[], some .cancelled, run⟩ := by
  rw [gather, if_pos cancelled]

theorem gather_cons_of_error {fatal : VerificationError} (goes : run.cancelled = false)
    (broken : rule.verify ctx run = (.error fatal, mid)) :
    gather stop ctx (rule :: rest) run = ⟨[], some fatal, mid⟩ := by
  rw [gather, if_neg (by simp [goes]), broken]

theorem gather_cons_of_ends (goes : run.cancelled = false)
    (verified : rule.verify ctx run = (.ok result, mid)) (ends : endsRun stop result = true) :
    gather stop ctx (rule :: rest) run = ⟨[result], none, mid⟩ := by
  rw [gather, if_neg (by simp [goes]), verified]
  simp only [if_pos ends]

theorem gather_cons_of_goes_on (goes : run.cancelled = false)
    (verified : rule.verify ctx run = (.ok result, mid)) (on : ¬ endsRun stop result = true) :
    gather stop ctx (rule :: rest) run = (gather stop ctx rest mid).onto [result] := by
  rw [gather, if_neg (by simp [goes]), verified]
  simp only [if_neg on]

/-- **Keeping the results changes nothing of what rules come to.** -/
theorem evaluate_eq_gather (stop : Bool) (ctx : Context) (rules : List Rule) : ∀ run,
    evaluate stop ctx rules run =
      ((gather stop ctx rules run).outcome, (gather stop ctx rules run).last) := by
  induction rules with
  | nil =>
      intro run
      rfl
  | cons rule rest ih =>
      intro run
      cases turn stop ctx rule run with
      | cancelled cancelled =>
          rw [gather_cons_of_cancelled cancelled, evaluate_cons_of_cancelled cancelled]
          rfl
      | breaksOff goes broken =>
          rw [gather_cons_of_error goes broken, evaluate_cons_of_error goes broken]
          rfl
      | ends goes verified ends =>
          rw [gather_cons_of_ends goes verified ends, evaluate_cons_of_ends goes verified ends]
          rfl
      | goesOn goes verified on =>
          rw [gather_cons_of_goes_on goes verified on, evaluate_cons_of_goes_on goes verified on,
            ih, Gathering.outcome_onto]
          rfl

/-! ### Going on after a stop -/

/-- Goes on with the rules that are left, without a stop. -/
def Gathering.goOn (ctx : Context) (rules : List Rule) (g : Gathering) : Gathering :=
  (gather false ctx (rules.drop g.results.length) g.last).onto g.results

theorem Gathering.goOn_onto (ctx : Context) (rule : Rule) (rest : List Rule) (g : Gathering)
    (result : RuleResult) :
    (g.onto [result]).goOn ctx (rule :: rest) = (g.goOn ctx rest).onto [result] := by
  simp [goOn]

/-- **One evaluation goes on where the other stops**, if that stops for a missing anchor; and else
they are the same. -/
theorem gather_goes_on (ctx : Context) (rules : List Rule) : ∀ run,
    gather false ctx rules run = gather true ctx rules run ∨
      ∃ r, (gather true ctx rules run).StoppedFor r ∧
        gather false ctx rules run = (gather true ctx rules run).goOn ctx rules := by
  induction rules with
  | nil =>
      intro run
      exact Or.inl rfl
  | cons rule rest ih =>
      intro run
      cases turn true ctx rule run with
      | cancelled cancelled =>
          rw [gather_cons_of_cancelled cancelled, gather_cons_of_cancelled cancelled]
          exact Or.inl rfl
      | breaksOff goes broken =>
          rw [gather_cons_of_error goes broken, gather_cons_of_error goes broken]
          exact Or.inl rfl
      | @ends result mid goes verified ends =>
          rw [gather_cons_of_ends goes verified ends]
          by_cases hfails : result.isFail = true
          · rw [gather_cons_of_ends goes verified (by simp [endsRun, hfails])]
            exact Or.inl rfl
          · -- The one stops at this result, and the other has all of the rest before it.
            have hopen : result.isInconclusive = true := by simpa [endsRun, hfails] using ends
            rw [gather_cons_of_goes_on goes verified (by simp [endsRun, hfails])]
            exact Or.inr ⟨result, ⟨rfl, rfl, hopen⟩, rfl⟩
      | @goesOn result mid goes verified on =>
          have hon : ¬ endsRun false result = true := by
            intro hends
            exact on (by simp_all [endsRun])
          rw [gather_cons_of_goes_on goes verified on, gather_cons_of_goes_on goes verified hon]
          rcases ih mid with hsame | ⟨r, hstopped, hgoesOn⟩
          · exact Or.inl (congrArg (Gathering.onto [result]) hsame)
          · rw [Gathering.goOn_onto, hgoesOn]
            exact Or.inr ⟨r, hstopped.onto [result], rfl⟩

/-! ### Two runs of one policy -/

/-- The policy with or without a stop. -/
def withStop (policy : Policy) (stop : Bool) : Policy := { policy with stopOnInconclusive := stop }

theorem run_withStop (policy : Policy) (stop : Bool) (ctx : Context) (run : Run) :
    (policy.withStop stop).run ctx run =
      (policy.outcomeOf (gather stop ctx policy.rules run).outcome,
        (gather stop ctx policy.rules run).last) :=
  run_of_evaluate (evaluate_eq_gather stop ctx policy.rules run)

variable {policy : Policy} {last : Run} {o : PolicyOutcome}

/-- An outcome has the results that were gathered. -/
theorem gathered_of_run (h : (policy.withStop stop).run ctx run = (.ok o, last)) :
    (gather stop ctx policy.rules run).results = o.results := by
  rw [run_withStop] at h
  obtain ⟨results, hresults, rfl⟩ := map_eq_ok_iff.mp (Prod.mk.inj h).1
  exact Gathering.results_of_outcome hresults

/-- A run that stops for a missing anchor is inconclusive. -/
theorem Gathering.StoppedFor.state_eq {r : RuleResult}
    (stopped : (gather stop ctx policy.rules run).StoppedFor r)
    (h : (policy.withStop stop).run ctx run = (.ok o, last)) : o.state = .inconclusive := by
  have hrecords := records_of_run h
  have hr := stopped.last
  rw [gathered_of_run h] at hr
  cases hstate : o.state with
  | ok =>
      have hclear := (hrecords.ok.mp hstate r (List.mem_of_getLast? hr)).2
      exact absurd stopped.missing (by simp [hclear])
  | failed =>
      obtain ⟨failure, hlast, hfails⟩ := hrecords.failed.mp hstate
      obtain rfl : r = failure := Option.mem_unique hr hlast
      exact absurd stopped.missing (by simp [RuleResult.isInconclusive_of_isFail hfails])
  | inconclusive => rfl

/-- Ending in ok is for all rules to pass, and no rule that passes ends a run. -/
theorem endsOk_withStop_iff :
    (policy.withStop stop).EndsOk ctx run last ↔ ctx.PassAll policy.rules run last :=
  endsOk_iff

/-- What the run of a policy with a stop at the first missing anchor says of the run without. -/
structure StopIsSafe (policy : Policy) (ctx : Context) (run : Run) : Prop where
  /-- An outcome has the results that were gathered. -/
  results : ∀ stop o last, (policy.withStop stop).run ctx run = (.ok o, last) →
    (gather stop ctx policy.rules run).results = o.results
  /-- What is gathered with a stop comes first in what is gathered without, which may break off
  later. -/
  gathered :
    (gather true ctx policy.rules run).results <+: (gather false ctx policy.rules run).results
  /-- What breaks off the run with a stop breaks off the other. -/
  fatal : ∀ fatal last, (policy.withStop true).run ctx run = (.error fatal, last) →
    (policy.withStop false).run ctx run = (.error fatal, last)
  /-- What is decided with a stop is decided so without. -/
  decided : ∀ o last, (policy.withStop true).run ctx run = (.ok o, last) →
    o.state ≠ .inconclusive → (policy.withStop false).run ctx run = (.ok o, last)
  /-- What is inconclusive with a stop may break off, be inconclusive or fail without. -/
  inconclusive : ∀ o last, (policy.withStop true).run ctx run = (.ok o, last) →
    o.state = .inconclusive →
    (∃ fatal last', (policy.withStop false).run ctx run = (.error fatal, last')) ∨
      ∃ o' last', (policy.withStop false).run ctx run = (.ok o', last') ∧
        o.results <+: o'.results ∧ (o'.state = .inconclusive ∨ o'.state = .failed)
  /-- A policy ends in ok with a stop exactly when it does without. -/
  ok : ∀ last, (policy.withStop true).EndsOk ctx run last ↔
    (policy.withStop false).EndsOk ctx run last

/--
**A stop at the first missing anchor gives no ok.**  Whatever the rules, and whatever the
context and the run they begin on, a policy comes to ok or fails with a stop only where
it does the same without; and where the stop makes it inconclusive, going on may show that
it fails, or break off, but not that it is ok.
-/
theorem stopIsSafe (policy : Policy) (ctx : Context) (run : Run) : policy.StopIsSafe ctx run := by
  have hok : ∀ last, (policy.withStop true).EndsOk ctx run last ↔
      (policy.withStop false).EndsOk ctx run last :=
    fun last => endsOk_withStop_iff.trans endsOk_withStop_iff.symm
  rcases gather_goes_on ctx policy.rules run with hsame | ⟨r, hstopped, hgoesOn⟩
  · have hrun :
        (policy.withStop false).run ctx run = (policy.withStop true).run ctx run := by
      rw [run_withStop, run_withStop, hsame]
    exact
      { results := fun stop o last h => gathered_of_run h
        gathered := by simp only [hsame, List.prefix_rfl]
        fatal := fun fatal last h => hrun.trans h
        decided := fun o last h _ => hrun.trans h
        inconclusive := fun o last h hopen =>
          Or.inr ⟨o, last, hrun.trans h, List.prefix_rfl, Or.inl hopen⟩
        ok := hok }
  · have hprefix : (gather true ctx policy.rules run).results <+:
        (gather false ctx policy.rules run).results := by
      rw [hgoesOn]
      exact List.prefix_append _ _
    exact
      { results := fun stop o last h => gathered_of_run h
        gathered := hprefix
        fatal := fun fatal last h => by
          rw [run_withStop, Gathering.outcome, hstopped.ended] at h
          exact absurd (Prod.mk.inj h).1 (by simp [outcomeOf, Except.map])
        decided := fun o last h hdecided => absurd (hstopped.state_eq h) hdecided
        inconclusive := fun o last h _ => by
          rcases hother : (policy.withStop false).run ctx run with ⟨fatal | o', last'⟩
          · exact Or.inl ⟨fatal, last', rfl⟩
          · rw [gathered_of_run h, gathered_of_run hother] at hprefix
            refine Or.inr ⟨o', last', rfl, hprefix, ?_⟩
            cases hstate : o'.state with
            | ok =>
                obtain ⟨ended, hended, hclear⟩ := (hok last').mpr ⟨o', hother, hstate⟩
                exact absurd hclear (by simp [hstopped.state_eq hended])
            | failed => exact Or.inr rfl
            | inconclusive => exact Or.inl rfl
        ok := hok }

/-- A verification is another matter.  Stopped at the first rule, this policy falls back on one that
is ok; not stopped, it fails. -/
example :
    let ctx := anchoredContext { rootOfSecondOne with
      publishedHash := rootOfSecondThree.publishedHash }
    let chain stop := PolicyChain.withFallback (ownPublication.withStop stop) .internal
    ((chain true).verify ctx (.start [])).1.toOption.map VerificationResult.state = some .ok ∧
      ((chain false).verify ctx (.start [])).1.toOption.map VerificationResult.state =
        some .failed := by
  decide +kernel

end Policy

end Keyless
