/-
One successful request for each key.

Calls for extended chains may come one after another or at once, do their steps in any
order, be cancelled and be dropped midway, and the service may answer as it likes.
What holds of them all the same is in `Calls.FetchOnce`.

Two things, once they are so, stay so whatever steps are done.  A chain that is kept
for a key is what all calls for the key come to that have not ended by then, and
nothing more is asked for that key (`Ledger.Settled`).  And once the run is
cancelled, nothing more is asked at all, and calls that begin later come to nothing
(`Ledger.Closed`).

Both are shown of one call at a time: what a step makes of the call at a position
depends on that call and on the run alone (`Ledger.Becomes`).
-/
import Keyless.Proofs.Verification.Consistency
import Keyless.Proofs.Verification.Independence

namespace Keyless

namespace Ledger

variable {ctx : Context} {extender : Extender} {start : List ExtensionRequest}
  {m : Calls.Move} {t t' : Ledger}

/-! ### What becomes of a call -/

/-- What a step can make of a call that was there. -/
inductive Becomes (ctx : Context) (run : Run) (call : Call) : CallState → Prop
  | same : Becomes ctx run call call.state
  | left (unended : ∀ outcome, call.state ≠ .ended outcome) :
      Becomes ctx run call (.ended (.error .cancelled))
  | taken (chain : CalendarChain) (waits : call.state = .waiting) (goes : run.cancelled = false)
      (kept : run.chain? call.key = some chain) :
      Becomes ctx run call (.ended (ctx.judge call.key (.ok chain)))
  | sent (flight : Flight) (waits : call.state = .waiting) (goes : run.cancelled = false)
      (missing : run.chain? call.key = none) : Becomes ctx run call (.flying flight)
  | landed (flight : Flight) (flies : call.state = .flying flight) (goes : run.cancelled = false) :
      Becomes ctx run call (.ended (ctx.judge flight.key flight.result))

theorem becomes_of_set {position i : Nat} {call : Call} {state : CallState}
    (here : t.calls.calls[position]? = some call)
    (calls : t'.calls.calls = t.calls.calls.set position { call with state })
    (becomes : Becomes ctx t.calls.run call state) {call' : Call}
    (later : t'.calls.calls[i]? = some call') :
    ∃ before, t.calls.calls[i]? = some before ∧ before.key = call'.key ∧
      Becomes ctx t.calls.run before call'.state := by
  rw [calls] at later
  by_cases hi : position = i
  · subst hi
    rw [List.getElem?_set_self (List.getElem?_eq_some_iff.mp here).1] at later
    obtain rfl := Option.some.inj later
    exact ⟨call, here, rfl, becomes⟩
  · rw [List.getElem?_set_ne hi] at later
    exact ⟨call', later, rfl, .same⟩

/-- **A call after a step has just begun, or was there and became what it is.** -/
theorem Step.becomes (s : Step ctx extender m t t') {i : Nat} {call' : Call}
    (later : t'.calls.calls[i]? = some call') :
    (i = t.calls.calls.length ∧ call'.state = .waiting) ∨
      ∃ call, t.calls.calls[i]? = some call ∧ call.key = call'.key ∧
        Becomes ctx t.calls.run call call'.state := by
  cases s with
  | same still calls sent =>
      rw [calls] at later
      exact Or.inr ⟨call', later, rfl, .same⟩
  | share shared still calls sent log chains cancelled =>
      rw [calls] at later
      exact Or.inr ⟨call', later, rfl, .same⟩
  | enter key begins calls sent run =>
      rw [calls] at later
      rcases getElem?_append_singleton later with hold | ⟨hend, rfl⟩
      · exact Or.inr ⟨call', hold, rfl, .same⟩
      · exact Or.inl ⟨hend, rfl⟩
  | leave position call acts here unended calls sent run =>
      exact Or.inr (becomes_of_set here calls (.left unended) later)
  | take position call chain acts here waits goes kept calls sent run =>
      exact Or.inr (becomes_of_set here calls (.taken chain waits goes kept) later)
  | send position call due answer acts here waits goes missing only asks calls sent run =>
      exact Or.inr (becomes_of_set here calls (.sent _ waits goes missing) later)
  | land position call flight acts here flies goes calls sent run =>
      exact Or.inr (becomes_of_set here calls (.landed flight flies goes) later)

/-! ### Chains that are kept -/

theorem Step.chain?_of_kept (s : Step ctx extender m t t') {key : ChainKey} {chain : CalendarChain}
    (kept : t.calls.run.chain? key = some chain) : t'.calls.run.chain? key = some chain := by
  cases s with
  | same still calls => rw [calls, kept]
  | share shared still calls sent log chains => rw [chains, kept]
  | enter key' begins calls sent run => rw [run, kept]
  | leave position call acts here unended calls sent run => rw [run, kept]
  | take position call found acts here waits goes found? calls sent run => rw [run, kept]
  | send position call due answer acts here waits goes missing only asks calls sent run =>
      rw [run]
      exact kept
  | land position call flight acts here flies goes calls sent run =>
      rw [run, Context.chain?_landed, kept, Option.some_or]

theorem Step.sentFor_of_kept (s : Step ctx extender m t t') {key : ChainKey}
    {chain : CalendarChain} (kept : t.calls.run.chain? key = some chain) :
    t'.sentFor key = t.sentFor key := by
  have hsame : t'.sent = t.sent → t'.sentFor key = t.sentFor key := fun h => by
    rw [sentFor, h, sentFor]
  cases s with
  | same still calls sent => exact hsame sent
  | share shared still calls sent => exact hsame sent
  | enter key' begins calls sent => exact hsame sent
  | leave position call acts here unended calls sent => exact hsame sent
  | take position call found acts here waits goes found? calls sent => exact hsame sent
  | send position call due answer acts here waits goes missing only asks calls sent =>
      -- A call asks only where nothing is kept.
      have hother : call.key ≠ key := by
        rintro rfl
        exact absurd (missing.symm.trans kept) (by simp)
      rw [sentFor, sent, List.filter_append, sentFor]
      simp [hother]
  | land position call flight acts here flies goes calls sent => exact hsame sent

/-- The call waits, or has ended with the chain that is kept for its key, or cancelled. -/
def Awaits (ctx : Context) (key : ChainKey) (chain : CalendarChain) (state : CallState) : Prop :=
  state = .waiting ∨ state = .ended (ctx.judge key (.ok chain)) ∨
    state = .ended (.error .cancelled)

theorem Becomes.awaits {run : Run} {call : Call} {state : CallState} {chain : CalendarChain}
    (b : Becomes ctx run call state) (kept : run.chain? call.key = some chain)
    (h : Awaits ctx call.key chain call.state) : Awaits ctx call.key chain state := by
  cases b with
  | same => exact h
  | left unended => exact Or.inr (Or.inr rfl)
  | taken found waits goes kept' =>
      obtain rfl : chain = found := Option.some.inj (kept.symm.trans kept')
      exact Or.inr (Or.inl rfl)
  | sent flight waits goes missing => exact absurd (missing.symm.trans kept) (by simp)
  | landed flight flies goes =>
      rw [flies] at h
      simp [Awaits] at h

theorem Sound.awaits (h : t.Sound ctx start) {position : Nat} {call : Call} {chain : CalendarChain}
    (here : t.calls.calls[position]? = some call) (kept : t.calls.run.chain? call.key = some chain)
    (unended : ∀ outcome, call.state ≠ .ended outcome) : Awaits ctx call.key chain call.state := by
  cases hstate : call.state with
  | waiting => exact Or.inl rfl
  | flying flight => exact absurd ((h.flying here hstate).2.1.symm.trans kept) (by simp)
  | ended outcome => exact absurd hstate (unended outcome)

/-- From here on the chain is what calls for the key come to that have not ended, unless they are
cancelled, and nothing more is asked for the key. -/
def Settled (ctx : Context) (t : Ledger) (key : ChainKey) (chain : CalendarChain) : Prop :=
  ∀ further : List Calls.Move,
    (t.after ctx further).sentFor key = t.sentFor key ∧
    ∀ {position : Nat} {call : Call} {outcome : ChainOutcome},
      (∀ before, t.calls.calls[position]? = some before →
        ∀ earlier, before.state ≠ .ended earlier) →
      (t.after ctx further).calls.calls[position]? = some call → call.key = key →
      call.state = .ended outcome →
      outcome = ctx.judge key (.ok chain) ∨ outcome = .error .cancelled

/-- What is kept for a key stays, and with it where the key's calls stand. -/
theorem after_of_kept (permitted : ctx.permittedExtender = .ok extender) {key : ChainKey}
    {chain : CalendarChain} {further : List Calls.Move} :
    ∀ {t : Ledger}, t.calls.run.chain? key = some chain →
      (t.after ctx further).sentFor key = t.sentFor key ∧
      ∀ {position : Nat}, (∀ call, t.calls.calls[position]? = some call → call.key = key →
          Awaits ctx key chain call.state) →
        ∀ call, (t.after ctx further).calls.calls[position]? = some call → call.key = key →
          Awaits ctx key chain call.state := by
  induction further with
  | nil =>
      intro t _
      exact ⟨rfl, id⟩
  | cons m rest ih =>
      intro t kept
      have hstep := step permitted t m
      obtain ⟨hsent, hcalls⟩ := ih (hstep.chain?_of_kept kept)
      refine ⟨hsent.trans (hstep.sentFor_of_kept kept),
        fun awaits => hcalls fun call hcall hkey => ?_⟩
      rcases hstep.becomes hcall with ⟨-, hwaits⟩ | ⟨before, hbefore, hsame, hbecomes⟩
      · exact Or.inl hwaits
      · rw [hkey] at hsame
        subst hsame
        exact hbecomes.awaits kept (awaits before hbefore rfl)

/-- **A chain that is kept is what all calls for its key come to from then on.** -/
theorem Sound.settled (h : t.Sound ctx start) (permitted : ctx.permittedExtender = .ok extender)
    {key : ChainKey} {chain : CalendarChain} (kept : t.calls.run.chain? key = some chain) :
    t.Settled ctx key chain := by
  intro further
  obtain ⟨hsent, hcalls⟩ := after_of_kept permitted kept
  refine ⟨hsent, fun {position call outcome} unended hcall hkey hended => ?_⟩
  have hawaits : ∀ before, t.calls.calls[position]? = some before → before.key = key →
      Awaits ctx key chain before.state := by
    rintro before hbefore rfl
    exact h.awaits hbefore kept (unended before hbefore)
  rcases hcalls hawaits call hcall hkey with hstate | hstate | hstate
  · exact absurd (hended.symm.trans hstate) (by simp)
  · exact Or.inl (CallState.ended.inj (hended.symm.trans hstate))
  · exact Or.inr (CallState.ended.inj (hended.symm.trans hstate))

/-- **A request that succeeds leaves its chain kept.** -/
theorem Sound.settled_of_land (h : t.Sound ctx start)
    (permitted : ctx.permittedExtender = .ok extender) {position : Nat} {call : Call}
    {flight : Flight} {chain : CalendarChain} (here : t.calls.calls[position]? = some call)
    (flies : call.state = .flying flight) (goes : t.calls.run.cancelled = false)
    (succeeds : flight.result = .ok chain) :
    (t.move ctx (.land position)).Settled ctx call.key chain := by
  have hsound := h.step (Ledger.step permitted t (.land position))
  refine hsound.settled permitted ?_
  have hlanded : (t.move ctx (.land position)).calls.run = Context.landed flight t.calls.run := by
    rw [move_calls, Calls.Move.apply, if_neg (by simp [goes]), Calls.land, here]
    simp [Call.flight?_eq_some_iff.mpr flies]
  obtain ⟨hkey, hmissing, -⟩ := h.flying here flies
  rw [hlanded, Context.chain?_landed, hmissing, if_pos hkey, succeeds]
  rfl

/-! ### Cancelled runs -/

theorem Step.cancelled (s : Step ctx extender m t t') (stopped : t.calls.run.cancelled = true) :
    t'.calls.run.cancelled = true ∧ t'.sent = t.sent := by
  cases s with
  | same still calls sent => exact ⟨by rw [calls, stopped], sent⟩
  | share shared still calls sent log chains cancelled => exact ⟨cancelled stopped, sent⟩
  | enter key begins calls sent run => exact ⟨by rw [run, stopped], sent⟩
  | leave position call acts here unended calls sent run => exact ⟨by rw [run, stopped], sent⟩
  | take position call chain acts here waits goes =>
      exact absurd stopped (by simp [goes])
  | send position call due answer acts here waits goes =>
      exact absurd stopped (by simp [goes])
  | land position call flight acts here flies goes =>
      exact absurd stopped (by simp [goes])

theorem look_of_cancelled (stopped : t.calls.run.cancelled = true) {position : Nat} {call : Call}
    (here : t.calls.calls[position]? = some call)
    (idle : call.state = .waiting ∨ call.state = .ended (.error .cancelled)) :
    (t.move ctx (.look position)).calls.calls[position]? =
      some { call with state := .ended (.error .cancelled) } := by
  obtain ⟨key, state⟩ := call
  rcases idle with hstate | hstate
  · obtain rfl : state = .waiting := hstate
    have hproceed : t.calls.proceed ctx key = (.ended (.error .cancelled), t.calls.run) := by
      rw [Calls.proceed, stopped, Context.enquire, if_pos stopped]
      rfl
    rw [(move_look here hproceed).1]
    exact List.getElem?_set_self (List.getElem?_eq_some_iff.mp here).1
  · obtain rfl : state = .ended (.error .cancelled) := hstate
    rw [move_calls, Calls.Move.apply, Calls.wake, here]
    exact here

/-- From here on nothing is asked for, and calls that begin come to nothing: looking ends them. -/
def Closed (ctx : Context) (t : Ledger) : Prop :=
  ∀ further : List Calls.Move,
    (t.after ctx further).sent = t.sent ∧
    ∀ {position : Nat} {call : Call}, t.calls.calls.length ≤ position →
      (t.after ctx further).calls.calls[position]? = some call →
      (call.state = .waiting ∨ call.state = .ended (.error .cancelled)) ∧
      ((t.after ctx further).move ctx (.look position)).calls.calls[position]? =
        some { call with state := .ended (.error .cancelled) }

theorem after_of_cancelled (permitted : ctx.permittedExtender = .ok extender)
    {further : List Calls.Move} :
    ∀ {t : Ledger}, t.calls.run.cancelled = true →
      (t.after ctx further).calls.run.cancelled = true ∧ (t.after ctx further).sent = t.sent ∧
      ∀ {position : Nat}, (∀ call, t.calls.calls[position]? = some call →
          call.state = .waiting ∨ call.state = .ended (.error .cancelled)) →
        ∀ call, (t.after ctx further).calls.calls[position]? = some call →
          call.state = .waiting ∨ call.state = .ended (.error .cancelled) := by
  induction further with
  | nil =>
      intro t stopped
      exact ⟨stopped, rfl, id⟩
  | cons m rest ih =>
      intro t stopped
      have hstep := step permitted t m
      obtain ⟨hstopped, hsame⟩ := hstep.cancelled stopped
      obtain ⟨hstopped', hsame', hcalls⟩ := ih hstopped
      refine ⟨hstopped', hsame'.trans hsame, fun idle => hcalls fun call hcall => ?_⟩
      rcases hstep.becomes hcall with ⟨-, hwaits⟩ | ⟨before, hbefore, -, hbecomes⟩
      · exact Or.inl hwaits
      · have hidle := idle before hbefore
        generalize call.state = state at hbecomes ⊢
        cases hbecomes with
        | same => exact hidle
        | left => exact Or.inr rfl
        | taken chain waits goes => exact absurd stopped (by simp [goes])
        | sent flight waits goes => exact absurd stopped (by simp [goes])
        | landed flight flies goes => exact absurd stopped (by simp [goes])

/-- **In a cancelled run nothing is asked for, and calls that begin come to nothing.** -/
theorem closed_of_cancelled (permitted : ctx.permittedExtender = .ok extender)
    (stopped : t.calls.run.cancelled = true) : t.Closed ctx := by
  intro further
  obtain ⟨hstopped, hsent, hcalls⟩ := after_of_cancelled permitted stopped
  refine ⟨hsent, fun {position call} begun hcall => ?_⟩
  have hnone : ∀ before, t.calls.calls[position]? = some before →
      before.state = .waiting ∨ before.state = .ended (.error .cancelled) := by
    intro before hbefore
    rw [List.getElem?_eq_none begun] at hbefore
    exact absurd hbefore (by simp)
  have hidle := hcalls hnone call hcall
  exact ⟨hidle, look_of_cancelled hstopped hcall hidle⟩

/-! ### Failures -/

/-- **A call that fails has sent one request, and that one failed.** -/
theorem Sound.sent_of_failed (h : t.Sound ctx start) {position : Nat} {call : Call}
    {failure : ExtensionFailure} (here : t.calls.calls[position]? = some call)
    (failed : call.state = .ended (.ok (.error failure))) :
    t.sent.filter (·.position = position) =
      [{ position, key := call.key, result := .error failure }] := by
  have hresults : t.resultsOf position = [.error failure] := by
    have hfits := h.each here
    rwa [failed] at hfits
  obtain ⟨s, hsent, hresult⟩ := List.map_eq_singleton_iff.mp hresults
  have hs : s ∈ t.sent.filter (·.position = position) := by
    rw [hsent]
    exact List.mem_singleton.mpr rfl
  obtain ⟨hmem, hposition⟩ := List.mem_filter.mp hs
  obtain ⟨owner, howner, hkey⟩ := h.owned s hmem
  rw [decide_eq_true_eq] at hposition
  rw [hposition] at howner
  obtain rfl : call = owner := Option.some.inj (here.symm.trans howner)
  rw [hsent, ← hposition, hkey, ← hresult]

/-- The calls after steps that begin with none, and what they have sent. -/
def record (ctx : Context) (run : Run) (moves : List Calls.Move) : Ledger :=
  (Ledger.start run).after ctx moves

/-- Whatever comes of calls by events is on record too. -/
theorem exists_record_eq_after (ctx : Context) (run : Run) (events : List Calls.Event) :
    ∃ moves, (record ctx run moves).calls = (Calls.none run).after ctx events := by
  have calm : (Calls.none run).IsCalm := fun _ call hcall => absurd hcall List.not_mem_nil
  obtain ⟨moves, hmoves⟩ : ∃ moves, (Calls.none run).moved ctx moves =
      (Calls.none run).after ctx events := Calls.exists_moved_eq_after calm
  exact ⟨moves, by rw [record, after_calls, ← hmoves]; rfl⟩

/-- Calls that look the same to their key have come to the same. -/
theorem Alike.exists_outcome {key : ChainKey} (alike : Alike key t t') {position : Nat}
    {call : Call} (here : t.calls.calls[position]? = some call) (own : call.key = key) :
    ∃ call', t'.calls.calls[position]? = some call' ∧ call'.key = key ∧
      call'.outcome? = call.outcome? := by
  obtain ⟨call', hcall', hseen⟩ := Calls.exists_of_view alike.view here
  obtain ⟨hsame, hstate⟩ := Call.seenBy_eq_iff.mp hseen
  refine ⟨call', hcall', hsame.trans own, ?_⟩
  have hstate := hstate own
  unfold Call.outcome?
  cases hleft : call'.state <;> cases hright : call.state <;>
    simp_all [CallState.timeless]

end Ledger

/-- What holds of calls for chains whatever steps have been done. -/
structure Calls.FetchOnce (ctx : Context) (run : Run) (moves : List Calls.Move) : Prop where
  /-- The service has had the requests that are written down, and no others. -/
  log : (Ledger.record ctx run moves).calls.run.log =
    run.log ++ (Ledger.record ctx run moves).sent.map fun s => ctx.request s.key
  /-- One request for a key is under way at a time. -/
  single : ∀ {key : ChainKey} {i j : Nat}, (Ledger.record ctx run moves).IsFlyingAt key i →
    (Ledger.record ctx run moves).IsFlyingAt key j → i = j
  /-- A request that succeeds is the last for its key, and its chain is what calls come to. -/
  succeeded : ∀ {position : Nat} {call : Call} {flight : Flight} {chain : CalendarChain},
    (Ledger.record ctx run moves).calls.calls[position]? = some call →
    call.state = .flying flight → flight.result = .ok chain →
    (Ledger.record ctx run moves).calls.run.cancelled = false →
    ((Ledger.record ctx run moves).move ctx (.land position)).Settled ctx call.key chain
  /-- So is a chain that was kept from before. -/
  kept : ∀ {key : ChainKey} {chain : CalendarChain},
    (Ledger.record ctx run moves).calls.run.chain? key = some chain →
    (Ledger.record ctx run moves).Settled ctx key chain
  /-- A call that fails has sent one request, and that one failed. -/
  failed : ∀ {position : Nat} {call : Call} {failure : ExtensionFailure},
    (Ledger.record ctx run moves).calls.calls[position]? = some call →
    call.state = .ended (.ok (.error failure)) →
    (Ledger.record ctx run moves).sent.filter (·.position = position) =
      [{ position, key := call.key, result := .error failure }]
  /-- Once the run is cancelled nothing is asked for, and calls that begin come to nothing. -/
  cancelled : (Ledger.record ctx run moves).calls.run.cancelled = true →
    (Ledger.record ctx run moves).Closed ctx
  /-- Without the steps of calls for other keys, the calls for a key send the same requests and come
  to the same, if they get the same answers. -/
  independent : ∀ key : ChainKey, ∃ service : Extender,
    (Ledger.record (ctx.asking service) run
        (moves.filter (·.concerns (Move.keys moves) key))).sent =
      (Ledger.record ctx run moves).sentFor key ∧
    ∀ {position : Nat} {call : Call},
      (Ledger.record ctx run moves).calls.calls[position]? = some call → call.key = key →
      ∃ call', (Ledger.record (ctx.asking service) run
          (moves.filter (·.concerns (Move.keys moves) key))).calls.calls[position]? = some call' ∧
        call'.key = key ∧ call'.outcome? = call.outcome?

/--
**At most one successful request for each key, in whatever order calls do their steps.**
The service may answer as it likes.  One request for a key is under way at a time; one
that succeeds is the last, and its chain is what all calls for the key come to from
then on; one that fails fails only the call that sent it.  A cancelled run sends none.
Calls for other keys change none of that.
-/
theorem Calls.fetchOnce {ctx : Context} {extender : Extender}
    (permitted : ctx.permittedExtender = .ok extender) (run : Run) (moves : List Calls.Move) :
    Calls.FetchOnce ctx run moves := by
  have sound : (Ledger.record ctx run moves).Sound ctx run.log :=
    (Ledger.sound_start ctx run).after permitted
  exact
    { log := sound.log
      single := sound.single
      succeeded := fun here flies succeeds goes =>
        sound.settled_of_land permitted here flies goes succeeds
      kept := fun kept => sound.settled permitted kept
      failed := fun here failed => sound.sent_of_failed here failed
      cancelled := fun stopped => Ledger.closed_of_cancelled permitted stopped
      independent := fun key => by
        obtain ⟨service, alike⟩ := Ledger.exists_service_alone permitted run moves key
        exact ⟨service, alike.sent, fun here own => alike.exists_outcome here own⟩ }

/-- Two calls for one key.  The second waits while the first asks, and takes what that delivers. -/
def twoCalls (key : ChainKey) : List Calls.Move :=
  [.enter key, .enter key, .look 0, .look 1, .land 0, .look 1]

/-- The two calls come to one chain by one request. -/
theorem Calls.fetchOnce_twoCalls :
    Calls.FetchOnce (anchoredContext rootOfSecondThree) (.start [])
        (twoCalls (some (.ofUInt32 3))) ∧
      (Ledger.record (anchoredContext rootOfSecondThree) (.start [])
        (twoCalls (some (.ofUInt32 3)))).sent.map Sending.position = [0] ∧
      (Ledger.record (anchoredContext rootOfSecondThree) (.start [])
        (twoCalls (some (.ofUInt32 3)))).calls.calls.map
          (fun call => call.outcome?.map Except.isOk) = [some true, some true] := by
  have permitted : ∃ extender,
      (anchoredContext rootOfSecondThree).permittedExtender = .ok extender := ⟨_, rfl⟩
  obtain ⟨extender, permitted⟩ := permitted
  exact ⟨Calls.fetchOnce permitted _ _, by decide +kernel, by decide +kernel⟩

end Keyless
