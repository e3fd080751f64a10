/-
Extended chains come from the service, one for each key.

A service may answer every request differently, so it matters which answer a rule
judged.  Two things are shown.  Whatever a call returns was answered by the service
to a request that this verification sent (`Delivered.call`).  And once a call has
returned a chain, every later call for the key returns that chain and changes nothing
(`extendedChain_of_chain?`), so that rules that ask for one key judge one chain.

What a call can do is said once, in `enquire_cases` for its first part and in
`extendedChain_cases` for the whole, and everything else is read off that.
-/
import Keyless.Proofs.Outcome
import Keyless.Verification.Run

namespace Keyless

/-! ### What runs keep -/

namespace Run

@[simp] theorem chain?_waitUntil (run : Run) (moment : Nat) (key : ChainKey) :
    (run.waitUntil moment).chain? key = run.chain? key := rfl

theorem chain?_keep (run : Run) (key wanted : ChainKey) (chain : CalendarChain) :
    (run.keep key chain).chain? wanted =
      (run.chain? wanted).or (if key = wanted then some chain else none) := by
  unfold chain? keep
  rw [List.find?_append, Option.map_or]
  by_cases hkey : key = wanted <;> simp [hkey]

end Run

namespace Context

/-- The request that a call for a key sends. -/
def request (ctx : Context) (key : ChainKey) : ExtensionRequest :=
  { aggregationTime := ctx.signature.aggregationTime, publicationTime := key }

/-- The run once a request for a key is sent. -/
def asked (ctx : Context) (key : ChainKey) (run : Run) : Run :=
  { run with log := run.log ++ [ctx.request key] }

theorem permittedExtender_eq_ok_iff {ctx : Context} {extender : Extender} :
    ctx.permittedExtender = .ok extender ↔
      ctx.extender = some extender ∧ ctx.extendingAllowed = true := by
  unfold permittedExtender
  cases ctx.extender with
  | none => simp
  | some given => by_cases hallowed : ctx.extendingAllowed = true <;> simp [hallowed]

theorem timed_eq_ok_iff {ctx : Context} {answer : ExtensionAnswer} {chain : CalendarChain} :
    ctx.timed answer = .ok chain ↔ answer.delay ≤ ctx.timeout ∧ answer.result = .ok chain := by
  unfold timed
  by_cases htime : answer.delay ≤ ctx.timeout
  · rw [if_pos htime, mapError_eq_ok_iff]
    exact ⟨fun h => ⟨htime, h⟩, fun h => h.2⟩
  · simp [htime]

theorem timed_eq_error_iff {ctx : Context} {answer : ExtensionAnswer} {failure : ExtensionFailure} :
    ctx.timed answer = .error failure ↔
      (ctx.timeout < answer.delay ∧ .timedOut ctx.timeout = failure) ∨
        (answer.delay ≤ ctx.timeout ∧
          ∃ cause, answer.result = .error cause ∧ .protocol cause = failure) := by
  unfold timed
  by_cases htime : answer.delay ≤ ctx.timeout
  · rw [if_pos htime, mapError_eq_error_iff]
    simp [htime, Nat.not_lt.mpr htime]
  · rw [if_neg htime]
    simp [htime, Nat.lt_of_not_le htime]

theorem judge_eq_ok_iff {ctx : Context} {key : ChainKey}
    {result : Except ExtensionFailure CalendarChain} {chain : CalendarChain} :
    ctx.judge key result = .ok (.ok chain) ↔
      result = .ok chain ∧ ctx.signature.agreesWith chain = true := by
  cases result with
  | error failure => simp [judge]
  | ok found =>
      rw [judge]
      by_cases hagrees : ctx.signature.agreesWith found = true
      · rw [if_pos hagrees]
        refine ⟨fun h => ?_, fun h => ?_⟩
        · obtain rfl := Except.ok.inj (Except.ok.inj h)
          exact ⟨rfl, hagrees⟩
        · rw [h.1]
      · rw [if_neg hagrees]
        refine ⟨fun h => absurd h (by simp), fun h => ?_⟩
        obtain rfl := Except.ok.inj h.1
        exact absurd h.2 hagrees

/-! ### What a call can do -/

/-- The first part of a call finds the run cancelled, or a chain kept, or no service to ask; or it
asks. -/
theorem enquire_cases (ctx : Context) (key : ChainKey) (run : Run) :
    (run.cancelled = true ∧ ctx.enquire key run = (.refused, run)) ∨
    (run.cancelled = false ∧ ∃ chain, run.chain? key = some chain ∧
      ctx.enquire key run = (.ready (.ok chain), run)) ∨
    (run.cancelled = false ∧ run.chain? key = none ∧ ∃ failure,
      ctx.permittedExtender = .error failure ∧
      ctx.enquire key run = (.ready (.error failure), run)) ∨
    (run.cancelled = false ∧ run.chain? key = none ∧ ∃ extender due,
      ctx.permittedExtender = .ok extender ∧
      ctx.enquire key run =
        (.underWay
          { key, due, result := ctx.timed (extender.answer run.log (ctx.request key)) },
          ctx.asked key run)) := by
  unfold enquire
  by_cases hcancelled : run.cancelled = true
  · exact Or.inl ⟨hcancelled, by rw [if_pos hcancelled]⟩
  · rw [if_neg hcancelled]
    have hgoes : run.cancelled = false := by simpa using hcancelled
    cases hkept : run.chain? key with
    | some chain => exact Or.inr (Or.inl ⟨hgoes, chain, rfl, rfl⟩)
    | none =>
        cases hpermitted : ctx.permittedExtender with
        | error failure => exact Or.inr (Or.inr (Or.inl ⟨hgoes, rfl, failure, rfl, rfl⟩))
        | ok extender => exact Or.inr (Or.inr (Or.inr ⟨hgoes, rfl, extender, _, rfl, rfl⟩))

/-- A whole call does the same, and if it asks it is cancelled meanwhile or comes to what the
service answered. -/
theorem extendedChain_cases (ctx : Context) (key : ChainKey) (run : Run) :
    (run.cancelled = true ∧ ctx.extendedChain key run = (.error .cancelled, run)) ∨
    (run.cancelled = false ∧ ∃ chain, run.chain? key = some chain ∧
      ctx.extendedChain key run = (ctx.judge key (.ok chain), run)) ∨
    (run.cancelled = false ∧ run.chain? key = none ∧ ∃ failure,
      ctx.permittedExtender = .error failure ∧
      ctx.extendedChain key run = (.ok (.error failure), run)) ∨
    (run.cancelled = false ∧ run.chain? key = none ∧ ∃ extender,
      ctx.permittedExtender = .ok extender ∧
      ((∃ moment, ctx.extendedChain key run =
          (.error .cancelled, ((ctx.asked key run).waitUntil moment).cancel)) ∨
        ∃ due, ctx.extendedChain key run =
          (ctx.judge key (ctx.timed (extender.answer run.log (ctx.request key))),
            landed
              { key, due, result := ctx.timed (extender.answer run.log (ctx.request key)) }
              (ctx.asked key run)))) := by
  unfold extendedChain
  rcases ctx.enquire_cases key run with ⟨hcancelled, hcall⟩ | ⟨hgoes, chain, hkept, hcall⟩ |
    ⟨hgoes, hnone, failure, hpermitted, hcall⟩ |
    ⟨hgoes, hnone, extender, due, hpermitted, hcall⟩
  · exact Or.inl ⟨hcancelled, by rw [hcall]⟩
  · exact Or.inr (Or.inl ⟨hgoes, chain, hkept, by rw [hcall]⟩)
  · exact Or.inr (Or.inr (Or.inl ⟨hgoes, hnone, failure, hpermitted, by rw [hcall]; rfl⟩))
  · refine Or.inr (Or.inr (Or.inr ⟨hgoes, hnone, extender, hpermitted, ?_⟩))
    rw [hcall]
    show (∃ moment, ctx.settle _ (ctx.asked key run) = _) ∨
      ∃ due, ctx.settle _ (ctx.asked key run) = _
    unfold settle
    split
    · next moment _ => exact Or.inl ⟨moment, rfl⟩
    · exact Or.inr ⟨due, rfl⟩

theorem landed_log (flight : Flight) (run : Run) :
    (landed flight run).log = run.log ∧ (landed flight run).cancelled = run.cancelled := by
  unfold landed
  cases flight.result <;> exact ⟨rfl, rfl⟩

theorem chain?_landed (flight : Flight) (run : Run) (wanted : ChainKey) :
    (landed flight run).chain? wanted =
      (run.chain? wanted).or
        (if flight.key = wanted then flight.result.toOption else none) := by
  unfold landed
  cases hresult : flight.result with
  | error failure => simp [Except.toOption]
  | ok chain => simp [Run.chain?_keep, Except.toOption]

/-! ### One chain for each key -/

theorem chain?_of_extendedChain {ctx : Context} {key : ChainKey} {run run' : Run}
    {chain : CalendarChain} (h : ctx.extendedChain key run = (.ok (.ok chain), run')) :
    run'.cancelled = false ∧ run'.chain? key = some chain ∧
      ctx.signature.agreesWith chain = true := by
  rcases ctx.extendedChain_cases key run with ⟨-, hcall⟩ | ⟨hgoes, kept, hkept, hcall⟩ |
    ⟨-, -, failure, -, hcall⟩ | ⟨hgoes, hnone, extender, -, ⟨moment, hcall⟩ | ⟨due, hcall⟩⟩
  · rw [hcall] at h
    exact absurd (Prod.mk.inj h).1 (by simp)
  · rw [hcall] at h
    obtain ⟨hjudge, rfl⟩ := Prod.mk.inj h
    obtain ⟨hresult, hagrees⟩ := judge_eq_ok_iff.mp hjudge
    rw [Except.ok.inj hresult] at hkept
    exact ⟨hgoes, hkept, hagrees⟩
  · rw [hcall] at h
    exact absurd (Prod.mk.inj h).1 (by simp)
  · rw [hcall] at h
    exact absurd (Prod.mk.inj h).1 (by simp)
  · rw [hcall] at h
    obtain ⟨hjudge, rfl⟩ := Prod.mk.inj h
    obtain ⟨hresult, hagrees⟩ := judge_eq_ok_iff.mp hjudge
    refine ⟨?_, ?_, hagrees⟩
    · rw [(landed_log _ _).2]
      exact hgoes
    · have hbefore : (ctx.asked key run).chain? key = none := hnone
      rw [chain?_landed, hbefore, if_pos rfl, hresult]
      rfl

/-- A call that comes to anything but the end of the verification leaves a run that goes on. -/
theorem goes_of_extendedChain {ctx : Context} {key : ChainKey} {run run' : Run}
    {outcome : Except ExtensionFailure CalendarChain}
    (h : ctx.extendedChain key run = (.ok outcome, run')) : run'.cancelled = false := by
  rcases ctx.extendedChain_cases key run with ⟨-, hcall⟩ | ⟨hgoes, _, -, hcall⟩ |
    ⟨hgoes, -, _, -, hcall⟩ | ⟨hgoes, -, _, -, ⟨_, hcall⟩ | ⟨_, hcall⟩⟩ <;> rw [hcall] at h
  · exact absurd (Prod.mk.inj h).1 (by simp)
  · rw [← (Prod.mk.inj h).2]
    exact hgoes
  · rw [← (Prod.mk.inj h).2]
    exact hgoes
  · exact absurd (Prod.mk.inj h).1 (by simp)
  · rw [← (Prod.mk.inj h).2, (landed_log _ _).2]
    exact hgoes

/-- **Once a chain is kept, a call for its key returns it and changes nothing.** -/
theorem extendedChain_of_chain? {ctx : Context} {key : ChainKey} {run : Run}
    {chain : CalendarChain} (goes : run.cancelled = false) (kept : run.chain? key = some chain)
    (agrees : ctx.signature.agreesWith chain = true) :
    ctx.extendedChain key run = (.ok (.ok chain), run) := by
  rcases ctx.extendedChain_cases key run with ⟨hcancelled, -⟩ | ⟨-, found, hfound, hcall⟩ |
    ⟨-, hnone, -⟩ | ⟨-, hnone, -⟩
  · exact absurd hcancelled (by simp [goes])
  · obtain rfl : chain = found := Option.some.inj (kept.symm.trans hfound)
    rw [hcall, judge_eq_ok_iff.mpr ⟨rfl, agrees⟩]
  · exact absurd hnone (by simp [kept])
  · exact absurd hnone (by simp [kept])

/-! ### Chains that the service delivered -/

/-- The service answered with the chain, in time, to a request for the key that was sent after the
requests in `start`. -/
def Answered (ctx : Context) (start log : List ExtensionRequest) (key : ChainKey)
    (chain : CalendarChain) : Prop :=
  ∃ extender earlier, ctx.permittedExtender = .ok extender ∧ start <+: earlier ∧
    earlier ++ [ctx.request key] <+: log ∧
    (extender.answer earlier (ctx.request key)).delay ≤ ctx.timeout ∧
    (extender.answer earlier (ctx.request key)).result = .ok chain

theorem Answered.mono {ctx : Context} {start log log' : List ExtensionRequest} {key : ChainKey}
    {chain : CalendarChain} (h : ctx.Answered start log key chain) (grown : log <+: log') :
    ctx.Answered start log' key chain := by
  obtain ⟨extender, earlier, hpermitted, hstart, hlog, hanswer⟩ := h
  exact ⟨extender, earlier, hpermitted, hstart, hlog.trans grown, hanswer⟩

/-- What the request has come to, if it is a chain, is the service's answer. -/
def Backed (ctx : Context) (start log : List ExtensionRequest) (flight : Flight) : Prop :=
  ∀ chain, flight.result = .ok chain → ctx.Answered start log flight.key chain

/-- Every chain that the run keeps was answered by the service since `start`. -/
structure Delivered (ctx : Context) (start : List ExtensionRequest) (run : Run) : Prop where
  start_prefix : start <+: run.log
  answered : ∀ key chain, run.chain? key = some chain → ctx.Answered start run.log key chain

variable {ctx : Context} {start : List ExtensionRequest} {run run' : Run}

/-- Longer logs and no new chains keep what was delivered. -/
theorem Delivered.grow (h : ctx.Delivered start run) (grown : run.log <+: run'.log)
    (same : ∀ key, run'.chain? key = run.chain? key) : ctx.Delivered start run' :=
  ⟨h.start_prefix.trans grown, fun key chain hkept =>
    (h.answered key chain (by rw [← same, hkept])).mono grown⟩

theorem Delivered.backed (h : ctx.Delivered start run) {key : ChainKey} {extender : Extender}
    (permitted : ctx.permittedExtender = .ok extender) (due : Nat) :
    ctx.Backed start (ctx.asked key run).log
      { key, due, result := ctx.timed (extender.answer run.log (ctx.request key)) } := by
  intro chain hchain
  obtain ⟨htime, hresult⟩ := timed_eq_ok_iff.mp hchain
  exact ⟨extender, run.log, permitted, h.start_prefix, List.prefix_refl _, htime, hresult⟩

theorem Delivered.asked (h : ctx.Delivered start run) (key : ChainKey) :
    ctx.Delivered start (ctx.asked key run) :=
  h.grow (List.prefix_append _ _) (fun _ => rfl)

theorem Delivered.landed (h : ctx.Delivered start run) {flight : Flight}
    (backed : ctx.Backed start run.log flight) : ctx.Delivered start (landed flight run) := by
  refine ⟨?_, fun wanted chain hkept => ?_⟩
  · rw [(landed_log flight run).1]
    exact h.start_prefix
  · rw [(landed_log flight run).1]
    rw [chain?_landed, Option.or_eq_some_iff] at hkept
    rcases hkept with hbefore | ⟨-, hnew⟩
    · exact h.answered wanted chain hbefore
    · by_cases hkey : flight.key = wanted
      · rw [if_pos hkey] at hnew
        rw [← hkey]
        exact backed chain (toOption_eq_some_iff.mp hnew)
      · rw [if_neg hkey] at hnew
        exact absurd hnew (by simp)

/-- **A call keeps nothing that the service did not answer.** -/
theorem Delivered.call (h : ctx.Delivered start run) (key : ChainKey) :
    ctx.Delivered start (ctx.extendedChain key run).2 := by
  rcases ctx.extendedChain_cases key run with ⟨-, hcall⟩ | ⟨-, kept, -, hcall⟩ |
    ⟨-, -, failure, -, hcall⟩ | ⟨-, -, extender, hpermitted, ⟨moment, hcall⟩ | ⟨due, hcall⟩⟩
  · rw [hcall]
    exact h
  · rw [hcall]
    exact h
  · rw [hcall]
    exact h
  · rw [hcall]
    exact (h.asked key).grow (List.prefix_refl _) (fun _ => rfl)
  · rw [hcall]
    exact (h.asked key).landed (h.backed hpermitted due)

end Context

end Keyless
