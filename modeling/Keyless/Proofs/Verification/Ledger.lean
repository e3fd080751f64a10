/-
Which call sent which request.

A ledger goes along with the steps of calls and writes down every request, with the
call that sent it and what it will have come to.

All that one step can do is said once (`Ledger.step`).  The invariant speaks of each
call by itself: how many requests it has sent follows from where it stands
(`CallState.Fits`), and a request is under way only while no chain is kept for its
key.  The latter is why the chain that a request delivers is the first and the only
one, and it rests on there being one request for a key at a time
(`Ledger.Sound.single`).
-/
import Keyless.Proofs.Verification.Moves

namespace Keyless

/-! ### The ledger -/

/-- A request that the call at a position sent for its key. -/
structure Sending where
  position : Nat
  key : ChainKey
  /-- What it will have come to when it lands. -/
  result : Except ExtensionFailure CalendarChain

/-- The request that a step sends, if it sends one. -/
def Calls.sending? (ctx : Context) (c : Calls) : Calls.Move → Option Sending
  | .look position =>
    match c.calls[position]? with
    | some { key, state := .waiting } =>
      match (c.proceed ctx key).1 with
      | .flying flight => some { position, key, result := flight.result }
      | _ => Option.none
    | _ => Option.none
  | _ => Option.none

/-- Calls, with all requests that they have sent so far. -/
structure Ledger where
  calls : Calls
  sent : List Sending

namespace Ledger

/-- No calls yet. -/
def start (run : Run) : Ledger := { calls := Calls.none run, sent := [] }

def move (ctx : Context) (t : Ledger) (move : Calls.Move) : Ledger :=
  { calls := move.apply ctx t.calls
    sent := t.sent ++ (t.calls.sending? ctx move).toList }

def after (ctx : Context) (moves : List Calls.Move) (t : Ledger) : Ledger :=
  moves.foldl (fun t move => t.move ctx move) t

/-- What the requests of the call at a position come to. -/
def resultsOf (t : Ledger) (position : Nat) : List (Except ExtensionFailure CalendarChain) :=
  (t.sent.filter (·.position = position)).map Sending.result

/-- The requests for a key. -/
def sentFor (t : Ledger) (key : ChainKey) : List Sending := t.sent.filter (·.key = key)

/-- The request of the call at a position is under way, for a key. -/
def IsFlyingAt (t : Ledger) (key : ChainKey) (position : Nat) : Prop :=
  ∃ call flight, t.calls.calls[position]? = some call ∧ call.state = .flying flight ∧
    flight.key = key

@[simp] theorem move_calls (ctx : Context) (t : Ledger) (m : Calls.Move) :
    (t.move ctx m).calls = m.apply ctx t.calls := rfl

@[simp] theorem after_cons (ctx : Context) (t : Ledger) (m : Calls.Move)
    (rest : List Calls.Move) : t.after ctx (m :: rest) = (t.move ctx m).after ctx rest := rfl

/-- The ledger goes along with the steps and does not change them. -/
theorem after_calls (ctx : Context) (moves : List Calls.Move) :
    ∀ t : Ledger, (t.after ctx moves).calls = t.calls.moved ctx moves := by
  induction moves with
  | nil =>
      intro t
      rfl
  | cons m rest ih =>
      intro t
      exact ih (t.move ctx m)

end Ledger

/-! ### What a call is doing -/

namespace Call

theorem isWaiting_iff {call : Call} : call.isWaiting = true ↔ call.state = .waiting := by
  unfold isWaiting
  cases call.state <;> simp

theorem flight?_eq_some_iff {call : Call} {flight : Flight} :
    call.flight? = some flight ↔ call.state = .flying flight := by
  unfold flight?
  cases call.state <;> simp

theorem cancelled_of_ended {call : Call} {outcome : ChainOutcome}
    (ended : call.state = .ended outcome) : call.cancelled = call := by
  unfold cancelled
  rw [ended]

theorem cancelled_of_open {call : Call} (unended : ∀ outcome, call.state ≠ .ended outcome) :
    call.cancelled = { call with state := .ended (.error .cancelled) } := by
  unfold cancelled
  split
  · next outcome hended => exact absurd hended (unended outcome)
  · rfl

end Call

theorem Ledger.isFlying_iff {t : Ledger} {key : ChainKey} :
    t.calls.isFlying key = true ↔ ∃ position, t.IsFlyingAt key position := by
  unfold Calls.isFlying
  simp only [List.any_eq_true, Option.any_eq_true, decide_eq_true_eq, IsFlyingAt,
    List.mem_iff_getElem?]
  refine ⟨?_, ?_⟩
  · rintro ⟨call, ⟨position, hcall⟩, flight, hflight, hkey⟩
    exact ⟨position, call, flight, hcall, Call.flight?_eq_some_iff.mp hflight, hkey⟩
  · rintro ⟨position, call, flight, hcall, hflight, hkey⟩
    exact ⟨call, ⟨position, hcall⟩, flight, Call.flight?_eq_some_iff.mpr hflight, hkey⟩

/-! ### What a step can do -/

theorem getElem?_append_singleton {α : Type} {l : List α} {i : Nat} {a b : α}
    (h : (l ++ [a])[i]? = some b) : l[i]? = some b ∨ (i = l.length ∧ b = a) := by
  by_cases hi : i < l.length
  · rw [List.getElem?_append_left hi] at h
    exact Or.inl h
  · rw [List.getElem?_append_right (by omega), List.getElem?_singleton] at h
    obtain ⟨hend, hb⟩ := Option.ite_none_right_eq_some.mp h
    exact Or.inr ⟨by omega, (Option.some.inj hb).symm⟩

theorem set_of_getElem? {α : Type} {l : List α} {i : Nat} {a : α} (h : l[i]? = some a) :
    l.set i a = l := by
  obtain ⟨hlt, rfl⟩ := List.getElem?_eq_some_iff.mp h
  exact List.set_getElem_self hlt

/-- All that one step can do. -/
inductive Ledger.Step (ctx : Context) (extender : Extender) (m : Calls.Move) (t t' : Ledger) : Prop
  /-- Nothing. -/
  | same (still : m.entered? = none) (calls : t'.calls = t.calls) (sent : t'.sent = t.sent)
  /-- Time passes, or the run is cancelled. -/
  | share (shared : m.position? = none) (still : m.entered? = none)
      (calls : t'.calls.calls = t.calls.calls) (sent : t'.sent = t.sent)
      (log : t'.calls.run.log = t.calls.run.log)
      (chains : ∀ key, t'.calls.run.chain? key = t.calls.run.chain? key)
      (cancelled : t.calls.run.cancelled = true → t'.calls.run.cancelled = true)
  /-- A call begins. -/
  | enter (key : ChainKey) (begins : m = .enter key)
      (calls : t'.calls.calls = t.calls.calls ++ [{ key, state := .waiting }])
      (sent : t'.sent = t.sent) (run : t'.calls.run = t.calls.run)
  /-- A call ends without a chain or a failure. -/
  | leave (position : Nat) (call : Call) (acts : m.position? = some position)
      (here : t.calls.calls[position]? = some call)
      (unended : ∀ outcome, call.state ≠ .ended outcome)
      (calls : t'.calls.calls =
        t.calls.calls.set position { call with state := .ended (.error .cancelled) })
      (sent : t'.sent = t.sent) (run : t'.calls.run = t.calls.run)
  /-- A call takes the chain that is kept for its key. -/
  | take (position : Nat) (call : Call) (chain : CalendarChain)
      (acts : m.position? = some position)
      (here : t.calls.calls[position]? = some call) (waits : call.state = .waiting)
      (goes : t.calls.run.cancelled = false) (kept : t.calls.run.chain? call.key = some chain)
      (calls : t'.calls.calls =
        t.calls.calls.set position { call with state := .ended (ctx.judge call.key (.ok chain)) })
      (sent : t'.sent = t.sent) (run : t'.calls.run = t.calls.run)
  /-- A call sends a request, no chain being kept for its key and no other request under way. -/
  | send (position : Nat) (call : Call) (due : Nat) (answer : ExtensionAnswer)
      (acts : m.position? = some position)
      (here : t.calls.calls[position]? = some call) (waits : call.state = .waiting)
      (goes : t.calls.run.cancelled = false) (missing : t.calls.run.chain? call.key = none)
      (only : ∀ other, ¬ t.IsFlyingAt call.key other)
      (asks : answer = extender.answer t.calls.run.log (ctx.request call.key))
      (calls : t'.calls.calls = t.calls.calls.set position
        { call with state := .flying { key := call.key, due, result := ctx.timed answer } })
      (sent : t'.sent = t.sent ++ [{ position, key := call.key, result := ctx.timed answer }])
      (run : t'.calls.run = ctx.asked call.key t.calls.run)
  /-- A call takes what its request has come to. -/
  | land (position : Nat) (call : Call) (flight : Flight) (acts : m.position? = some position)
      (here : t.calls.calls[position]? = some call) (flies : call.state = .flying flight)
      (goes : t.calls.run.cancelled = false)
      (calls : t'.calls.calls = t.calls.calls.set position
        { call with state := .ended (ctx.judge flight.key flight.result) })
      (sent : t'.sent = t.sent) (run : t'.calls.run = Context.landed flight t.calls.run)

namespace Ledger

variable {ctx : Context} {extender : Extender} {t : Ledger}

theorem sent_of_silent {m : Calls.Move} (silent : t.calls.sending? ctx m = none) :
    (t.move ctx m).sent = t.sent := by
  rw [move, silent, Option.toList_none, List.append_nil]

theorem step_leave {m : Calls.Move} (position : Nat) (acts : m.position? = some position)
    (still : m.entered? = none) (silent : t.calls.sending? ctx m = none)
    (leaves : m.apply ctx t.calls = t.calls.leave position) :
    Step ctx extender m t (t.move ctx m) := by
  cases hcall : t.calls.calls[position]? with
  | none =>
      refine .same still ?_ (sent_of_silent silent)
      rw [move_calls, leaves, Calls.leave, hcall]
  | some call =>
      have hleft : m.apply ctx t.calls =
          { t.calls with calls := t.calls.calls.set position call.cancelled } := by
        rw [leaves, Calls.leave, hcall]
      by_cases hended : ∃ outcome, call.state = .ended outcome
      · obtain ⟨outcome, hended⟩ := hended
        refine .same still ?_ (sent_of_silent silent)
        rw [move_calls, hleft, Call.cancelled_of_ended hended, set_of_getElem? hcall]
      · have hopen : ∀ outcome, call.state ≠ .ended outcome := fun outcome h => hended ⟨outcome, h⟩
        refine .leave position call acts hcall hopen ?_ (sent_of_silent silent) ?_
        · rw [move_calls, hleft, Call.cancelled_of_open hopen]
        · rw [move_calls, hleft]

theorem move_look {position : Nat} {key : ChainKey}
    (here : t.calls.calls[position]? = some { key, state := .waiting }) {state : CallState}
    {run : Run} (proceeds : t.calls.proceed ctx key = (state, run)) :
    (t.move ctx (.look position)).calls =
        { run, calls := t.calls.calls.set position { key, state } } ∧
      t.calls.sending? ctx (.look position) =
        match state with
        | .flying flight => some { position, key, result := flight.result }
        | _ => none := by
  refine ⟨?_, ?_⟩
  · rw [move_calls, Calls.Move.apply, Calls.wake, here]
    simp [Call.isWaiting, proceeds]
  · rw [Calls.sending?, here]
    simp only [proceeds]
    cases state <;> rfl

theorem move_look_of_not_waiting {position : Nat}
    (idle : ∀ call, t.calls.calls[position]? = some call → call.state ≠ .waiting) :
    (t.move ctx (.look position)).calls = t.calls ∧
      t.calls.sending? ctx (.look position) = none := by
  refine ⟨?_, ?_⟩
  · rw [move_calls, Calls.Move.apply, Calls.wake]
    cases hcall : t.calls.calls[position]? with
    | none => rfl
    | some call =>
        have hidle : ¬ call.isWaiting = true := fun h => idle call hcall (Call.isWaiting_iff.mp h)
        simp [hidle]
  · rw [Calls.sending?]
    cases hcall : t.calls.calls[position]? with
    | none => rfl
    | some call =>
        obtain ⟨key, state⟩ := call
        cases state with
        | waiting => exact absurd rfl (idle _ hcall)
        | flying flight => rfl
        | ended outcome => rfl

theorem step_look (permitted : ctx.permittedExtender = .ok extender) (position : Nat) :
    Step ctx extender (.look position) t (t.move ctx (.look position)) := by
  by_cases hwaits : ∃ key, t.calls.calls[position]? = some { key, state := .waiting }
  · obtain ⟨key, hcall⟩ := hwaits
    by_cases hflying : (!t.calls.run.cancelled && t.calls.isFlying key) = true
    · -- Another call's request is under way, so nothing changes.
      have hproceed : t.calls.proceed ctx key = (.waiting, t.calls.run) := by
        rw [Calls.proceed, if_pos hflying]
      obtain ⟨hcalls, hsending⟩ := move_look hcall hproceed
      refine .same rfl ?_ (sent_of_silent hsending)
      rw [hcalls, set_of_getElem? hcall]
    · rcases ctx.enquire_cases key t.calls.run with ⟨-, henquire⟩ |
        ⟨hgoes, chain, hkept, henquire⟩ | ⟨-, -, failure, hrefused, -⟩ |
        ⟨hgoes, hmissing, asked, due, hpermitted, henquire⟩
      · have hproceed : t.calls.proceed ctx key = (.ended (.error .cancelled), t.calls.run) := by
          rw [Calls.proceed, if_neg hflying, henquire]
        obtain ⟨hcalls, hsending⟩ := move_look hcall hproceed
        exact .leave position _ rfl hcall (by simp) (by rw [hcalls]) (sent_of_silent hsending)
          (by rw [hcalls])
      · have hproceed : t.calls.proceed ctx key =
            (.ended (ctx.judge key (.ok chain)), t.calls.run) := by
          rw [Calls.proceed, if_neg hflying, henquire]
        obtain ⟨hcalls, hsending⟩ := move_look hcall hproceed
        exact .take position _ chain rfl hcall rfl hgoes hkept (by rw [hcalls])
          (sent_of_silent hsending) (by rw [hcalls])
      · rw [permitted] at hrefused
        exact absurd hrefused (by simp)
      · obtain rfl : asked = extender := Except.ok.inj (hpermitted.symm.trans permitted)
        have hproceed : t.calls.proceed ctx key =
            (.flying
              { key, due, result := ctx.timed (asked.answer t.calls.run.log (ctx.request key)) },
              ctx.asked key t.calls.run) := by
          rw [Calls.proceed, if_neg hflying, henquire]
        obtain ⟨hcalls, hsending⟩ := move_look hcall hproceed
        have honly : ∀ other, ¬ t.IsFlyingAt key other := by
          intro other hother
          exact hflying (by simp [hgoes, isFlying_iff.mpr ⟨other, hother⟩])
        refine .send position _ due _ rfl hcall rfl hgoes hmissing honly rfl (by rw [hcalls]) ?_
          (by rw [hcalls])
        rw [move, hsending]
        rfl
  · have hidle : ∀ call, t.calls.calls[position]? = some call → call.state ≠ .waiting := by
      rintro ⟨key, state⟩ hcall rfl
      exact hwaits ⟨key, hcall⟩
    obtain ⟨hcalls, hsending⟩ := move_look_of_not_waiting hidle
    exact .same rfl hcalls (sent_of_silent hsending)

theorem step_land (position : Nat) :
    Step ctx extender (.land position) t (t.move ctx (.land position)) := by
  by_cases hcancelled : t.calls.run.cancelled = true
  · exact step_leave position rfl rfl rfl (by rw [Calls.Move.apply, if_pos hcancelled])
  · have hmoved : (t.move ctx (.land position)).calls = t.calls.land ctx position := by
      rw [move_calls, Calls.Move.apply, if_neg hcancelled]
    cases hcall : t.calls.calls[position]? with
    | none => exact .same rfl (by rw [hmoved, Calls.land, hcall]) (sent_of_silent rfl)
    | some call =>
        cases hflight : call.flight? with
        | none =>
            refine .same rfl ?_ (sent_of_silent rfl)
            rw [hmoved, Calls.land, hcall]
            simp [hflight]
        | some flight =>
            have hlanded : t.calls.land ctx position =
                { run := Context.landed flight t.calls.run
                  calls := t.calls.calls.set position
                    { call with state := .ended (ctx.judge flight.key flight.result) } } := by
              rw [Calls.land, hcall]
              simp [hflight]
            exact .land position call flight rfl hcall (Call.flight?_eq_some_iff.mp hflight)
              (by simpa using hcancelled) (by rw [hmoved, hlanded])
              (sent_of_silent rfl) (by rw [hmoved, hlanded])

/-- **Every step does one of these things.** -/
theorem step (permitted : ctx.permittedExtender = .ok extender) (t : Ledger) (m : Calls.Move) :
    Step ctx extender m t (t.move ctx m) := by
  cases m with
  | enter key => exact .enter key rfl rfl (sent_of_silent rfl) rfl
  | look position => exact step_look permitted position
  | land position => exact step_land position
  | leave position => exact step_leave position rfl rfl rfl rfl
  | cancel => exact .share rfl rfl rfl (sent_of_silent rfl) rfl (fun _ => rfl) (fun _ => rfl)
  | pass moment => exact .share rfl rfl rfl (sent_of_silent rfl) rfl (fun _ => rfl) id

end Ledger

/-! ### The invariant -/

/-- Where a call for a key stands fits to what its requests come to: there is none while it waits,
and one if it is under way or has failed.  A request is under way only while no chain is kept. -/
def CallState.Fits (run : Run) (key : ChainKey)
    (results : List (Except ExtensionFailure CalendarChain)) : CallState → Prop
  | .waiting => results = []
  | .flying flight => flight.key = key ∧ run.chain? key = none ∧ results = [flight.result]
  | .ended (.ok (.error failure)) => results = [.error failure]
  | .ended (.ok (.ok chain)) => run.chain? key = some chain
  | .ended (.error _) => True

theorem CallState.Fits.congr {run run' : Run} {key : ChainKey}
    {results : List (Except ExtensionFailure CalendarChain)} {state : CallState}
    (h : state.Fits run key results) (same : run'.chain? key = run.chain? key) :
    state.Fits run' key results := by
  unfold Fits at h ⊢
  rw [same]
  exact h

/-- What a ledger says of its calls. -/
structure Ledger.Sound (ctx : Context) (start : List ExtensionRequest) (t : Ledger) : Prop where
  /-- The service has had the requests in the ledger, and no others. -/
  log : t.calls.run.log = start ++ t.sent.map fun s => ctx.request s.key
  /-- Requests were sent by calls for their keys. -/
  owned : ∀ s ∈ t.sent, ∃ call, t.calls.calls[s.position]? = some call ∧ call.key = s.key
  /-- They come to what an answer comes to. -/
  answered : ∀ s ∈ t.sent, ∃ answer, s.result = ctx.timed answer
  /-- There is one request for a key under way at a time. -/
  single : ∀ {key : ChainKey} {i j : Nat}, t.IsFlyingAt key i → t.IsFlyingAt key j → i = j
  /-- Every call stands where its requests have brought it. -/
  each : ∀ {i : Nat} {call : Call}, t.calls.calls[i]? = some call →
    call.state.Fits t.calls.run call.key (t.resultsOf i)

namespace Ledger

variable {ctx : Context} {extender : Extender} {start : List ExtensionRequest} {t t' : Ledger}

theorem resultsOf_of_sent {sent : Sending} (h : t'.sent = t.sent ++ [sent]) (i : Nat) :
    t'.resultsOf i = t.resultsOf i ++ if sent.position = i then [sent.result] else [] := by
  unfold resultsOf
  rw [h, List.filter_append, List.map_append]
  by_cases hposition : sent.position = i <;> simp [hposition]

theorem resultsOf_congr (h : t'.sent = t.sent) (i : Nat) : t'.resultsOf i = t.resultsOf i := by
  rw [resultsOf, resultsOf, h]

theorem sound_start (ctx : Context) (run : Run) : (Ledger.start run).Sound ctx run.log where
  log := (List.append_nil _).symm
  owned := fun s hs => absurd hs List.not_mem_nil
  answered := fun s hs => absurd hs List.not_mem_nil
  single := by
    rintro key i j ⟨call, flight, hcall, -⟩
    simp [Ledger.start, Calls.none] at hcall
  each := by
    intro i call hcall
    simp [Ledger.start, Calls.none] at hcall

/-- A flight that a call has is for the call's key, for which no chain is kept. -/
theorem Sound.flying (h : t.Sound ctx start) {position : Nat} {call : Call} {flight : Flight}
    (here : t.calls.calls[position]? = some call) (flies : call.state = .flying flight) :
    flight.key = call.key ∧ t.calls.run.chain? call.key = none ∧
      t.resultsOf position = [flight.result] := by
  have hfits := h.each here
  rw [flies] at hfits
  exact hfits

/-- The invariant reads nothing else of a ledger. -/
theorem Sound.still (h : t.Sound ctx start) (calls : t'.calls.calls = t.calls.calls)
    (sent : t'.sent = t.sent) (log : t'.calls.run.log = t.calls.run.log)
    (chains : ∀ key, t'.calls.run.chain? key = t.calls.run.chain? key) : t'.Sound ctx start := by
  refine ⟨?_, ?_, ?_, ?_, ?_⟩
  · rw [log, sent, h.log]
  · rw [calls, sent]
    exact h.owned
  · rw [sent]
    exact h.answered
  · unfold IsFlyingAt
    rw [calls]
    exact h.single
  · intro i call hcall
    rw [calls] at hcall
    rw [resultsOf_congr sent]
    exact (h.each hcall).congr (chains _)

/-- A request under way after a call's state was set was so before, or is the call's own. -/
theorem IsFlyingAt.of_set {position i : Nat} {key : ChainKey} {call : Call} {state : CallState}
    (here : t.calls.calls[position]? = some call)
    (calls : t'.calls.calls = t.calls.calls.set position { call with state })
    (flying : t'.IsFlyingAt key i) :
    t.IsFlyingAt key i ∨ (i = position ∧ ∃ flight, state = .flying flight ∧ flight.key = key) := by
  obtain ⟨other, flight, hother, hflies, hkey⟩ := flying
  rw [calls] at hother
  by_cases hi : i = position
  · subst hi
    rw [List.getElem?_set_self (List.getElem?_eq_some_iff.mp here).1] at hother
    obtain rfl := Option.some.inj hother
    exact Or.inr ⟨rfl, flight, hflies, hkey⟩
  · rw [List.getElem?_set_ne (Ne.symm hi)] at hother
    exact Or.inl ⟨other, flight, hother, hflies, hkey⟩

/-- **The invariant survives what one call does**, if its new state fits and those of the others
still do. -/
theorem Sound.set (h : t.Sound ctx start) {position : Nat} {call : Call} {state : CallState}
    (here : t.calls.calls[position]? = some call)
    (calls : t'.calls.calls = t.calls.calls.set position { call with state })
    (log : t'.calls.run.log = start ++ t'.sent.map fun s => ctx.request s.key)
    (sent : ∀ s ∈ t'.sent, s ∈ t.sent ∨
      (s.position = position ∧ s.key = call.key ∧ ∃ answer, s.result = ctx.timed answer))
    (fits : state.Fits t'.calls.run call.key (t'.resultsOf position))
    (others : ∀ {i other}, i ≠ position → t.calls.calls[i]? = some other →
      other.state.Fits t'.calls.run other.key (t'.resultsOf i))
    (alone : ∀ flight, state = .flying flight → ∀ other, ¬ t.IsFlyingAt call.key other) :
    t'.Sound ctx start := by
  have hlt : position < t.calls.calls.length := (List.getElem?_eq_some_iff.mp here).1
  have hnew : t'.calls.calls[position]? = some { call with state } := by
    rw [calls, List.getElem?_set_self hlt]
  have hold : ∀ {i : Nat}, i ≠ position → t'.calls.calls[i]? = t.calls.calls[i]? := by
    intro i hi
    rw [calls, List.getElem?_set_ne (Ne.symm hi)]
  -- If the call has sent a request, none for its key was under way.
  have hown : ∀ {key : ChainKey}, (∃ flight, state = .flying flight ∧ flight.key = key) →
      ∀ i, ¬ t.IsFlyingAt key i := by
    rintro key ⟨flight, hflight, rfl⟩ i
    subst hflight
    rw [fits.1]
    exact alone flight rfl i
  refine ⟨log, ?_, ?_, ?_, ?_⟩
  · intro s hs
    rcases sent s hs with hs | ⟨rfl, hkey, -⟩
    · obtain ⟨other, hother, hkey⟩ := h.owned s hs
      by_cases hi : s.position = position
      · rw [hi] at hother ⊢
        obtain rfl : call = other := Option.some.inj (here.symm.trans hother)
        exact ⟨_, hnew, hkey⟩
      · exact ⟨other, by rw [hold hi, hother], hkey⟩
    · exact ⟨_, hnew, hkey.symm⟩
  · intro s hs
    rcases sent s hs with hs | ⟨-, -, hanswer⟩
    · exact h.answered s hs
    · exact hanswer
  · intro key i j hi hj
    rcases hi.of_set here calls with hi | ⟨rfl, hset⟩ <;>
      rcases hj.of_set here calls with hj | ⟨rfl, hset'⟩
    · exact h.single hi hj
    · exact absurd hi (hown hset' i)
    · exact absurd hj (hown hset j)
    · rfl
  · intro i other hother
    by_cases hi : i = position
    · subst hi
      obtain rfl : { call with state } = other := Option.some.inj (hnew.symm.trans hother)
      exact fits
    · rw [hold hi] at hother
      exact others hi hother

theorem Sound.entered (h : t.Sound ctx start) {key : ChainKey}
    (calls : t'.calls.calls = t.calls.calls ++ [{ key, state := .waiting }])
    (sent : t'.sent = t.sent) (run : t'.calls.run = t.calls.run) : t'.Sound ctx start := by
  have hcases : ∀ {i : Nat} {call : Call}, t'.calls.calls[i]? = some call →
      t.calls.calls[i]? = some call ∨
        (i = t.calls.calls.length ∧ call = { key, state := .waiting }) := by
    intro i call hcall
    rw [calls] at hcall
    exact getElem?_append_singleton hcall
  have hflying : ∀ {wanted : ChainKey} {i : Nat}, t'.IsFlyingAt wanted i →
      t.IsFlyingAt wanted i := by
    rintro wanted i ⟨call, flight, hcall, hflies, hkey⟩
    rcases hcases hcall with hold | ⟨-, rfl⟩
    · exact ⟨call, flight, hold, hflies, hkey⟩
    · exact absurd hflies (by simp)
  refine ⟨?_, ?_, ?_, ?_, ?_⟩
  · rw [run, sent, h.log]
  · intro s hs
    rw [sent] at hs
    obtain ⟨call, hcall, hkey⟩ := h.owned s hs
    refine ⟨call, ?_, hkey⟩
    rw [calls, List.getElem?_append_left (List.getElem?_eq_some_iff.mp hcall).1, hcall]
  · rw [sent]
    exact h.answered
  · intro wanted i j hi hj
    exact h.single (hflying hi) (hflying hj)
  · intro i call hcall
    rw [run, resultsOf_congr sent]
    rcases hcases hcall with hold | ⟨rfl, rfl⟩
    · exact h.each hold
    · -- There was no call here that could have sent anything.
      refine List.map_eq_nil_iff.mpr (List.filter_eq_nil_iff.mpr ?_)
      intro s hs hposition
      obtain ⟨call, hcall, -⟩ := h.owned s hs
      rw [decide_eq_true_eq] at hposition
      rw [hposition, List.getElem?_eq_none (Nat.le_refl _)] at hcall
      exact absurd hcall (by simp)

theorem Sound.ends (h : t.Sound ctx start) {position : Nat} {call : Call} {outcome : ChainOutcome}
    (here : t.calls.calls[position]? = some call)
    (calls : t'.calls.calls = t.calls.calls.set position { call with state := .ended outcome })
    (sent : t'.sent = t.sent) (run : t'.calls.run = t.calls.run)
    (fits : (CallState.ended outcome).Fits t.calls.run call.key (t.resultsOf position)) :
    t'.Sound ctx start := by
  refine h.set here calls ?_ ?_ ?_ ?_ (by simp)
  · rw [run, sent, h.log]
  · intro s hs
    exact Or.inl (sent ▸ hs)
  · rw [run, resultsOf_congr sent]
    exact fits
  · intro i other _ hother
    rw [run, resultsOf_congr sent]
    exact h.each hother

/-- What a judged chain or failure fits to. -/
theorem fits_judge {run : Run} {key wanted : ChainKey}
    {result : Except ExtensionFailure CalendarChain}
    {results : List (Except ExtensionFailure CalendarChain)}
    (failed : ∀ failure, result = .error failure → results = [.error failure])
    (kept : ∀ chain, result = .ok chain → run.chain? key = some chain) :
    (CallState.ended (ctx.judge wanted result)).Fits run key results := by
  cases result with
  | error failure => exact failed failure rfl
  | ok chain =>
      rw [Context.judge]
      by_cases hagrees : ctx.signature.agreesWith chain = true
      · rw [if_pos hagrees]
        exact kept chain rfl
      · rw [if_neg hagrees]
        trivial

/-- A call that was waiting has sent nothing, so the request that it sends is its first. -/
theorem Sound.sends (h : t.Sound ctx start) {position due : Nat} {call : Call}
    {answer : ExtensionAnswer} (here : t.calls.calls[position]? = some call)
    (waits : call.state = .waiting) (missing : t.calls.run.chain? call.key = none)
    (only : ∀ other, ¬ t.IsFlyingAt call.key other)
    (calls : t'.calls.calls = t.calls.calls.set position
      { call with state := .flying { key := call.key, due, result := ctx.timed answer } })
    (sent : t'.sent = t.sent ++ [{ position, key := call.key, result := ctx.timed answer }])
    (run : t'.calls.run = ctx.asked call.key t.calls.run) : t'.Sound ctx start := by
  have hnone : t.resultsOf position = [] := by
    have hfits := h.each here
    rwa [waits] at hfits
  refine h.set here calls ?_ ?_ ?_ ?_ (fun _ _ => only)
  · rw [run, sent, Context.asked, h.log, List.map_append, List.append_assoc]
    rfl
  · intro s hs
    rw [sent, List.mem_append, List.mem_singleton] at hs
    rcases hs with hs | rfl
    · exact Or.inl hs
    · exact Or.inr ⟨rfl, rfl, answer, rfl⟩
  · rw [run, resultsOf_of_sent sent, hnone]
    exact ⟨rfl, missing, by simp⟩
  · intro i other hi hother
    rw [run, resultsOf_of_sent sent, if_neg (Ne.symm hi), List.append_nil]
    exact (h.each hother).congr rfl

/-- When a flight lands, the other calls stand as well as before: no chain was kept for its key, and
no other request for that is under way. -/
theorem Sound.fits_landed (h : t.Sound ctx start) {position i : Nat} {call other : Call}
    {flight : Flight} (here : t.calls.calls[position]? = some call)
    (flies : call.state = .flying flight) (hi : i ≠ position)
    (hother : t.calls.calls[i]? = some other) :
    other.state.Fits (Context.landed flight t.calls.run) other.key (t.resultsOf i) := by
  obtain ⟨hkey, hmissing, -⟩ := h.flying here flies
  have hfits := h.each hother
  by_cases hsame : other.key = call.key
  · rw [hsame] at hfits ⊢
    cases hstate : other.state with
    | waiting =>
        rw [hstate] at hfits
        exact hfits
    | flying flight' =>
        have hkey' : flight'.key = flight.key := by
          rw [(h.flying hother hstate).1, hsame, hkey]
        exact absurd (h.single ⟨other, flight', hother, hstate, hkey'⟩
          ⟨call, flight, here, flies, rfl⟩) hi
    | ended outcome =>
        rw [hstate] at hfits
        rcases outcome with fatal | failure | chain
        · trivial
        · exact hfits
        · exact absurd (hmissing.symm.trans hfits) (by simp)
  · refine hfits.congr ?_
    rw [Context.chain?_landed, hkey, if_neg (Ne.symm hsame), Option.or_none]

theorem Sound.lands (h : t.Sound ctx start) {position : Nat} {call : Call} {flight : Flight}
    (here : t.calls.calls[position]? = some call) (flies : call.state = .flying flight)
    (calls : t'.calls.calls = t.calls.calls.set position
      { call with state := .ended (ctx.judge flight.key flight.result) })
    (sent : t'.sent = t.sent) (run : t'.calls.run = Context.landed flight t.calls.run) :
    t'.Sound ctx start := by
  obtain ⟨hkey, hmissing, hresults⟩ := h.flying here flies
  refine h.set here calls ?_ ?_ ?_ ?_ (by simp)
  · rw [run, (Context.landed_log _ _).1, sent, h.log]
  · intro s hs
    exact Or.inl (sent ▸ hs)
  · rw [resultsOf_congr sent, hresults]
    refine fits_judge (fun failure hfailed => by rw [hfailed]) (fun chain hchain => ?_)
    rw [run, Context.chain?_landed, hmissing, if_pos hkey, hchain]
    rfl
  · intro i other hi hother
    rw [resultsOf_congr sent, run]
    exact h.fits_landed here flies hi hother

/-- **Every step keeps the invariant.** -/
theorem Sound.step (h : t.Sound ctx start) {m : Calls.Move} (s : Step ctx extender m t t') :
    t'.Sound ctx start := by
  cases s with
  | same still calls sent =>
      exact h.still (by rw [calls]) sent (by rw [calls]) (fun _ => by rw [calls])
  | share shared still calls sent log chains cancelled =>
      exact h.still calls sent log chains
  | enter key begins calls sent run =>
      exact h.entered calls sent run
  | leave position call acts here unended calls sent run =>
      exact h.ends here calls sent run trivial
  | take position call chain acts here waits goes kept calls sent run =>
      refine h.ends here calls sent run (fits_judge (by simp) ?_)
      rintro _ ⟨⟩
      exact kept
  | send position call due answer acts here waits goes missing only asks calls sent run =>
      exact h.sends here waits missing only calls sent run
  | land position call flight acts here flies goes calls sent run =>
      exact h.lands here flies calls sent run

/-- **And so do steps one after another.** -/
theorem Sound.after (permitted : ctx.permittedExtender = .ok extender) {moves : List Calls.Move} :
    ∀ {t : Ledger}, t.Sound ctx start → (t.after ctx moves).Sound ctx start := by
  induction moves with
  | nil =>
      intro t h
      exact h
  | cons m rest ih =>
      intro t h
      exact ih (h.step (Ledger.step permitted t m))

end Ledger

end Keyless
