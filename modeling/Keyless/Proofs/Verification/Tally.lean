/-
What a policy comes to is settled by what its rules come to.

The run of a policy mixes two things: a run that is taken on from rule to rule, and a
list of results that stops at the first that ends it.  The second is a function of what
the rules come to, and no more (`Policy.tally`).  So whoever knows what each rule comes
to, on all the runs that the policy may be on when it gets there, knows what the policy
comes to (`Policy.evaluate_eq_tally`).  Which runs these are is an invariant of the
rules, and left open here.
-/
import Keyless.Proofs.Verification.Policy

namespace Keyless

namespace Policy

variable {stop : Bool} {ctx : Context} {rule : Rule} {rules rest : List Rule} {run mid : Run}
  {result : RuleResult}

/-! ### One rule before others -/

theorem evaluate_cons_of_error {fatal : VerificationError} (goes : run.cancelled = false)
    (broken : rule.verify ctx run = (.error fatal, mid)) :
    evaluate stop ctx (rule :: rest) run = (.error fatal, mid) := by
  rw [evaluate, if_neg (by simp [goes]), broken]

theorem evaluate_cons_of_ends (goes : run.cancelled = false)
    (verified : rule.verify ctx run = (.ok result, mid)) (ends : endsRun stop result = true) :
    evaluate stop ctx (rule :: rest) run = (.ok [result], mid) := by
  rw [evaluate, if_neg (by simp [goes]), verified]
  simp only [if_pos ends]

theorem evaluate_cons_of_goes_on (goes : run.cancelled = false)
    (verified : rule.verify ctx run = (.ok result, mid)) (on : ¬ endsRun stop result = true) :
    evaluate stop ctx (rule :: rest) run =
      ((evaluate stop ctx rest mid).1.map (result :: ·), (evaluate stop ctx rest mid).2) := by
  rw [evaluate, if_neg (by simp [goes]), verified]
  simp only [if_neg on]
  rcases evaluate stop ctx rest mid with ⟨fatal | results, last⟩ <;> rfl

/-! ### What rules keep, and where an evaluation breaks off -/

/-- What every rule keeps of a run, rules one after another keep. -/
theorem evaluate_kept {P : Run → Prop}
    (kept : ∀ (rule : Rule) (run : Run), P run → P (rule.verify ctx run).2) (stop : Bool)
    (rules : List Rule) : ∀ run, P run → P (evaluate stop ctx rules run).2 := by
  induction rules with
  | nil =>
      intro run start
      exact start
  | cons rule rest ih =>
      intro run start
      by_cases hcancelled : run.cancelled = true
      · rw [evaluate, if_pos hcancelled]
        exact start
      · have hgoes : run.cancelled = false := by simpa using hcancelled
        have hmid := kept rule run start
        rcases hverify : rule.verify ctx run with ⟨fatal | result, mid⟩
        · rw [hverify] at hmid
          rw [evaluate_cons_of_error hgoes hverify]
          exact hmid
        · rw [hverify] at hmid
          by_cases hends : endsRun stop result = true
          · rw [evaluate_cons_of_ends hgoes hverify hends]
            exact hmid
          · rw [evaluate_cons_of_goes_on hgoes hverify hends]
            exact ih mid hmid

theorem exists_of_evaluate_error {P : Run → Prop} (goes : ∀ run, P run → run.cancelled = false)
    (kept : ∀ (rule : Rule) (run : Run), P run → P (rule.verify ctx run).2)
    {fatal : VerificationError} :
    ∀ {run last : Run}, P run → evaluate stop ctx rules run = (.error fatal, last) →
      ∃ rule ∈ rules, ∃ mid, P mid ∧ rule.verify ctx mid = (.error fatal, last) := by
  induction rules with
  | nil =>
      intro run last _ h
      exact absurd (Prod.mk.inj h).1 (by simp)
  | cons rule rest ih =>
      intro run last start h
      have hmid := kept rule run start
      rcases hverify : rule.verify ctx run with ⟨broken | result, mid⟩
      · rw [evaluate_cons_of_error (goes run start) hverify] at h
        obtain ⟨hbroken, rfl⟩ := Prod.mk.inj h
        obtain rfl := Except.error.inj hbroken
        exact ⟨rule, List.mem_cons_self, run, start, hverify⟩
      · rw [hverify] at hmid
        by_cases hends : endsRun stop result = true
        · rw [evaluate_cons_of_ends (goes run start) hverify hends] at h
          exact absurd (Prod.mk.inj h).1 (by simp)
        · rw [evaluate_cons_of_goes_on (goes run start) hverify hends] at h
          obtain ⟨hbroken, hlast⟩ := Prod.mk.inj h
          obtain ⟨other, hother, at', hat, hfatal⟩ :=
            ih hmid (Prod.ext (map_eq_error_iff.mp hbroken) hlast)
          exact ⟨other, List.mem_cons_of_mem rule hother, at', hat, hfatal⟩

/-! ### The tally -/

/-- The results of rules up to the first that ends the run, from what each rule comes to. -/
def tally (stop : Bool) (verdict : Rule → Except VerificationError RuleResult) :
    List Rule → Except VerificationError (List RuleResult)
  | [] => .ok []
  | rule :: rest =>
    match verdict rule with
    | .error fatal => .error fatal
    | .ok result =>
      if endsRun stop result then .ok [result]
      else (tally stop verdict rest).map (result :: ·)

variable {verdict : Rule → Except VerificationError RuleResult}

/-- **Rules one after another come to the tally of what each comes to**, on all runs of a kind that
the rules keep to. -/
theorem evaluate_eq_tally {P : Run → Prop} (goes : ∀ run, P run → run.cancelled = false) :
    (∀ rule ∈ rules, ∀ run, P run →
      (rule.verify ctx run).1 = verdict rule ∧ P (rule.verify ctx run).2) →
    ∀ run, P run → (evaluate stop ctx rules run).1 = tally stop verdict rules ∧
      P (evaluate stop ctx rules run).2 := by
  induction rules with
  | nil =>
      intro _ run start
      exact ⟨rfl, start⟩
  | cons rule rest ih =>
      intro each run start
      obtain ⟨hverdict, hkept⟩ := each rule List.mem_cons_self run start
      have hrest := ih fun r hr => each r (List.mem_cons_of_mem rule hr)
      rcases hverify : rule.verify ctx run with ⟨fatal | result, mid⟩
      · rw [hverify] at hverdict hkept
        rw [evaluate_cons_of_error (goes run start) hverify, tally, ← hverdict]
        exact ⟨rfl, hkept⟩
      · rw [hverify] at hverdict hkept
        rw [tally, ← hverdict]
        by_cases hends : endsRun stop result = true
        · rw [evaluate_cons_of_ends (goes run start) hverify hends]
          exact ⟨(if_pos hends).symm, hkept⟩
        · obtain ⟨hresults, hlast⟩ := hrest mid hkept
          rw [evaluate_cons_of_goes_on (goes run start) hverify hends, hresults]
          exact ⟨(if_neg hends).symm, hlast⟩

/-- So they do on a run that none of them changes. -/
theorem evaluate_eq_tally_of_still (goes : run.cancelled = false)
    (each : ∀ rule ∈ rules, rule.verify ctx run = (verdict rule, run)) :
    evaluate stop ctx rules run = (tally stop verdict rules, run) := by
  have hkept : ∀ rule ∈ rules, ∀ at', at' = run →
      (rule.verify ctx at').1 = verdict rule ∧ (rule.verify ctx at').2 = run := by
    rintro rule hrule _ rfl
    rw [each rule hrule]
    exact ⟨rfl, rfl⟩
  obtain ⟨hresults, hrun⟩ :=
    evaluate_eq_tally (P := (· = run)) (fun _ same => same ▸ goes) hkept run rfl
  exact Prod.ext hresults hrun

/-- What the run of a policy comes to, from what its rules come to. -/
def outcomeOf (policy : Policy) (results : Except VerificationError (List RuleResult)) :
    Except VerificationError PolicyOutcome :=
  results.map fun results =>
    { policy := policy.name, completed := results.length = policy.rules.length, results }

theorem run_of_evaluate {policy : Policy} {results : Except VerificationError (List RuleResult)}
    (h : evaluate policy.stopOnInconclusive ctx policy.rules run = (results, mid)) :
    policy.run ctx run = (policy.outcomeOf results, mid) := by
  rw [Policy.run, h]
  cases results <;> rfl

/-- What every rule keeps of a run, a policy keeps. -/
theorem run_kept {P : Run → Prop}
    (kept : ∀ (rule : Rule) (run : Run), P run → P (rule.verify ctx run).2) (policy : Policy)
    (start : P run) : P (policy.run ctx run).2 := by
  have hrules := evaluate_kept kept policy.stopOnInconclusive policy.rules run start
  rcases hevaluate : evaluate policy.stopOnInconclusive ctx policy.rules run with ⟨results, last⟩
  rw [hevaluate] at hrules
  rw [run_of_evaluate hevaluate]
  exact hrules

theorem exists_of_run_error {P : Run → Prop} (goes : ∀ run, P run → run.cancelled = false)
    (kept : ∀ (rule : Rule) (run : Run), P run → P (rule.verify ctx run).2) {policy : Policy}
    {fatal : VerificationError} {last : Run} (start : P run)
    (broken : policy.run ctx run = (.error fatal, last)) :
    ∃ rule ∈ policy.rules, ∃ mid, P mid ∧ rule.verify ctx mid = (.error fatal, last) := by
  rcases hevaluate : evaluate policy.stopOnInconclusive ctx policy.rules run with ⟨results, mid⟩
  rw [run_of_evaluate hevaluate] at broken
  obtain ⟨hfatal, rfl⟩ := Prod.mk.inj broken
  rw [map_eq_error_iff.mp hfatal] at hevaluate
  exact exists_of_evaluate_error goes kept start hevaluate

end Policy

/-- The result with the outcome of a policy that was run before. -/
def VerificationResult.after (outcome : PolicyOutcome) (result : VerificationResult) :
    VerificationResult :=
  { result with earlier := outcome :: result.earlier }

namespace PolicyChain

variable {ctx : Context} {policy next : Policy} {fallbacks others : List Policy} {run mid : Run}
  {outcome : PolicyOutcome}

/-! ### One policy before others -/

theorem verifyFrom_of_error {fatal : VerificationError}
    (h : policy.run ctx run = (.error fatal, mid)) :
    verifyFrom ctx policy fallbacks run = (.error fatal, mid) := by
  rw [verifyFrom, h]

theorem verifyFrom_of_decided (h : policy.run ctx run = (.ok outcome, mid))
    (decided : fallbacks = [] ∨ outcome.state ≠ .inconclusive) :
    verifyFrom ctx policy fallbacks run = (.ok { earlier := [], last := outcome }, mid) := by
  rw [verifyFrom, h]
  simp only
  split
  · next hopen => exact absurd hopen (decided.resolve_left (List.cons_ne_nil _ _))
  · rfl

theorem verifyFrom_of_inconclusive (h : policy.run ctx run = (.ok outcome, mid))
    (inconclusive : outcome.state = .inconclusive) :
    verifyFrom ctx policy (next :: others) run =
      ((verifyFrom ctx next others mid).1.map (VerificationResult.after outcome),
        (verifyFrom ctx next others mid).2) := by
  rw [verifyFrom, h]
  simp only [inconclusive]
  rcases verifyFrom ctx next others mid with ⟨fatal | result, last⟩ <;> rfl

theorem run_of_verifyFrom_error {broken fatal : VerificationError} {last : Run}
    (hrun : policy.run ctx run = (.error broken, mid))
    (h : verifyFrom ctx policy fallbacks run = (.error fatal, last)) :
    policy.run ctx run = (.error fatal, last) := by
  rw [verifyFrom_of_error hrun] at h
  obtain ⟨hbroken, rfl⟩ := Prod.mk.inj h
  rw [hrun, Except.error.inj hbroken]

theorem exists_of_verifyFrom_error {P : Run → Prop}
    (kept : ∀ (policy : Policy) (run : Run), P run → P (policy.run ctx run).2)
    {fatal : VerificationError} :
    ∀ {policy : Policy} {run last : Run}, P run →
      verifyFrom ctx policy fallbacks run = (.error fatal, last) →
      ∃ p ∈ policy :: fallbacks, ∃ mid, P mid ∧ p.run ctx mid = (.error fatal, last) := by
  induction fallbacks with
  | nil =>
      intro policy run last start h
      rcases hrun : policy.run ctx run with ⟨broken | outcome, mid⟩
      · exact ⟨policy, List.mem_cons_self, run, start, run_of_verifyFrom_error hrun h⟩
      · rw [verifyFrom_of_decided hrun (Or.inl rfl)] at h
        exact absurd (Prod.mk.inj h).1 (by simp)
  | cons next others ih =>
      intro policy run last start h
      have hmid := kept policy run start
      rcases hrun : policy.run ctx run with ⟨broken | outcome, mid⟩
      · exact ⟨policy, List.mem_cons_self, run, start, run_of_verifyFrom_error hrun h⟩
      · rw [hrun] at hmid
        by_cases hstate : outcome.state = .inconclusive
        · rw [verifyFrom_of_inconclusive hrun hstate] at h
          obtain ⟨hbroken, hlast⟩ := Prod.mk.inj h
          obtain ⟨p, hp, at', hat, hfatal⟩ :=
            ih hmid (Prod.ext (map_eq_error_iff.mp hbroken) hlast)
          exact ⟨p, List.mem_cons_of_mem policy hp, at', hat, hfatal⟩
        · rw [verifyFrom_of_decided hrun (Or.inr hstate)] at h
          exact absurd (Prod.mk.inj h).1 (by simp)

/-! ### The tally of policies -/

/-- The result of policies up to the first that decides, from what each policy comes to. -/
def tallyFrom (come : Policy → Except VerificationError PolicyOutcome) :
    Policy → List Policy → Except VerificationError VerificationResult
  | policy, [] => (come policy).map fun outcome => { earlier := [], last := outcome }
  | policy, next :: others =>
    match come policy with
    | .error fatal => .error fatal
    | .ok outcome =>
      if outcome.state = .inconclusive then
        (tallyFrom come next others).map (VerificationResult.after outcome)
      else .ok { earlier := [], last := outcome }

/-- **Policies one after another come to the tally of what each comes to**, on all runs of a kind
that the policies keep to. -/
theorem verifyFrom_eq_tallyFrom {P : Run → Prop}
    {come : Policy → Except VerificationError PolicyOutcome}
    (each : ∀ policy run, P run →
      (policy.run ctx run).1 = come policy ∧ P (policy.run ctx run).2) :
    ∀ policy run, P run →
      (verifyFrom ctx policy fallbacks run).1 = tallyFrom come policy fallbacks ∧
        P (verifyFrom ctx policy fallbacks run).2 := by
  induction fallbacks with
  | nil =>
      intro policy run start
      obtain ⟨hcome, hkept⟩ := each policy run start
      rcases hrun : policy.run ctx run with ⟨fatal | outcome, mid⟩
      · rw [hrun] at hcome hkept
        rw [verifyFrom_of_error hrun, tallyFrom, ← hcome]
        exact ⟨rfl, hkept⟩
      · rw [hrun] at hcome hkept
        rw [verifyFrom_of_decided hrun (Or.inl rfl), tallyFrom, ← hcome]
        exact ⟨rfl, hkept⟩
  | cons next others ih =>
      intro policy run start
      obtain ⟨hcome, hkept⟩ := each policy run start
      rcases hrun : policy.run ctx run with ⟨fatal | outcome, mid⟩
      · rw [hrun] at hcome hkept
        rw [verifyFrom_of_error hrun, tallyFrom, ← hcome]
        exact ⟨rfl, hkept⟩
      · rw [hrun] at hcome hkept
        rw [tallyFrom, ← hcome]
        by_cases hstate : outcome.state = .inconclusive
        · obtain ⟨hnext, hlast⟩ := ih next mid hkept
          rw [verifyFrom_of_inconclusive hrun hstate, hnext]
          exact ⟨(if_pos hstate).symm, hlast⟩
        · rw [verifyFrom_of_decided hrun (Or.inr hstate)]
          exact ⟨(if_neg hstate).symm, hkept⟩

end PolicyChain

end Keyless
