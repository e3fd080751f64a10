/-
Calls for different keys have no part in each other.

What matters to the calls for a key is whether the run is cancelled, the chain that is
kept for the key, and where those calls stand (`Calls.view`).  A step of a call for
another key leaves all of that as it is (`Ledger.Step.view_of_other`).  A step of a call
for the key makes of it what it makes of it anywhere, provided the service gives the
same answer (`Ledger.Alike.move`).

So the steps of all other calls can be left out, and the calls for the key send the same
requests and come to the same (`Ledger.exists_service_alone`).  A service may well answer
by what it was asked before, other keys included; left alone, it would answer
differently.  Therefore the service that is asked is another one, which repeats the
answers.
-/
import Keyless.Proofs.Verification.Ledger

namespace Keyless

/-- The context with another service. -/
def Context.asking (ctx : Context) (service : Extender) : Context :=
  { ctx with extender := some service }

theorem Context.permittedExtender_asking {ctx : Context} {extender : Extender}
    (permitted : ctx.permittedExtender = .ok extender) (service : Extender) :
    (ctx.asking service).permittedExtender = .ok service :=
  permittedExtender_eq_ok_iff.mpr ⟨rfl, (permittedExtender_eq_ok_iff.mp permitted).2⟩

/-! ### What a key sees -/

/-- The state without the moment at which a request is due. -/
def CallState.timeless : CallState → CallState
  | .flying flight => .flying { flight with due := 0 }
  | state => state

/-- The call as its key sees it.  Other keys see no more than that it is there. -/
def Call.seenBy (key : ChainKey) (call : Call) : Call :=
  if call.key = key then { call with state := call.state.timeless }
  else { call with state := .waiting }

/-- All that matters to the calls for a key. -/
structure Calls.View where
  cancelled : Bool
  chain : Option CalendarChain
  calls : List Call

/-- What a key sees of calls. -/
def Calls.view (key : ChainKey) (c : Calls) : Calls.View :=
  { cancelled := c.run.cancelled
    chain := c.run.chain? key
    calls := c.calls.map (Call.seenBy key) }

theorem Calls.view_eq_iff {key : ChainKey} {c c' : Calls} :
    c'.view key = c.view key ↔ c'.run.cancelled = c.run.cancelled ∧
      c'.run.chain? key = c.run.chain? key ∧
      c'.calls.map (Call.seenBy key) = c.calls.map (Call.seenBy key) := by
  simp [Calls.view]

namespace Call

variable {key : ChainKey} {call call' : Call}

theorem seenBy_other (other : call.key ≠ key) (state : CallState) :
    Call.seenBy key { call with state } = call.seenBy key := by
  simp [seenBy, other]

/-- Two calls look the same to a key when they are for one key, and stand where they stand if that
is it. -/
theorem seenBy_eq_iff : call'.seenBy key = call.seenBy key ↔
    call'.key = call.key ∧ (call.key = key → call'.state.timeless = call.state.timeless) := by
  obtain ⟨own, state⟩ := call
  obtain ⟨own', state'⟩ := call'
  unfold seenBy
  by_cases hown : own = key
  · by_cases hown' : own' = key
    · simp [hown, hown']
    · simp [hown, hown']
  · by_cases hown' : own' = key
    · simp [hown, hown', Ne.symm hown]
    · simp [hown, hown']

theorem seenBy_cancelled (same : call'.seenBy key = call.seenBy key) :
    call'.cancelled.seenBy key = call.cancelled.seenBy key := by
  obtain ⟨own, state⟩ := call
  obtain ⟨own', state'⟩ := call'
  obtain ⟨hkey, hstate⟩ := seenBy_eq_iff.mp same
  obtain rfl : own' = own := hkey
  refine seenBy_eq_iff.mpr ⟨?_, ?_⟩
  · cases state <;> cases state' <;> rfl
  · intro hown
    have hown : own' = key := by
      cases state <;> exact hown
    have hstate := hstate hown
    cases state <;> cases state' <;> simp_all [CallState.timeless, cancelled]

end Call

namespace Calls

variable {key : ChainKey} {c c' : Calls}

theorem getElem?_of_view (alike : c'.view key = c.view key) (position : Nat) :
    (c'.calls[position]?).map (Call.seenBy key) = (c.calls[position]?).map (Call.seenBy key) := by
  rw [← List.getElem?_map, ← List.getElem?_map, (view_eq_iff.mp alike).2.2]

theorem exists_of_view (alike : c'.view key = c.view key) {position : Nat} {call : Call}
    (here : c.calls[position]? = some call) :
    ∃ call', c'.calls[position]? = some call' ∧ call'.seenBy key = call.seenBy key := by
  have hsame := getElem?_of_view alike position
  rw [here] at hsame
  obtain ⟨call', hcall', hseen⟩ := Option.map_eq_some_iff.mp hsame
  exact ⟨call', hcall', hseen⟩

theorem none_of_view (alike : c'.view key = c.view key) {position : Nat}
    (nobody : c.calls[position]? = Option.none) : c'.calls[position]? = Option.none := by
  have hsame := getElem?_of_view alike position
  rw [nobody] at hsame
  exact Option.map_eq_none_iff.mp hsame

theorem view_set {run run' : Run} (alike : c'.view key = c.view key) {call call' : Call}
    (position : Nat) (cancelled : run'.cancelled = run.cancelled)
    (chain : run'.chain? key = run.chain? key) (same : call'.seenBy key = call.seenBy key) :
    view key { run := run', calls := c'.calls.set position call' } =
      view key { run, calls := c.calls.set position call } := by
  refine view_eq_iff.mpr ⟨cancelled, chain, ?_⟩
  show (c'.calls.set position call').map _ = (c.calls.set position call).map _
  rw [List.map_set, List.map_set, same, (view_eq_iff.mp alike).2.2]

theorem view_enter (alike : c'.view key = c.view key) (wanted : ChainKey) :
    (c'.enter wanted).view key = (c.enter wanted).view key := by
  obtain ⟨hcancelled, hchain, hcalls⟩ := view_eq_iff.mp alike
  refine view_eq_iff.mpr ⟨hcancelled, hchain, ?_⟩
  show (c'.calls ++ _).map _ = (c.calls ++ _).map _
  rw [List.map_append, List.map_append, hcalls]

theorem view_leave (alike : c'.view key = c.view key) (position : Nat) :
    (c'.leave position).view key = (c.leave position).view key := by
  obtain ⟨hcancelled, hchain, -⟩ := view_eq_iff.mp alike
  cases hcall : c.calls[position]? with
  | none =>
      rw [leave, none_of_view alike hcall, leave, hcall]
      exact alike
  | some call =>
      obtain ⟨call', hcall', hseen⟩ := exists_of_view alike hcall
      rw [leave, hcall', leave, hcall]
      exact view_set alike position hcancelled hchain (Call.seenBy_cancelled hseen)

end Calls

namespace CallState

theorem eq_waiting_of_timeless {state : CallState} (h : state.timeless = .waiting) :
    state = .waiting := by
  cases state <;> simp_all [timeless]

theorem eq_flying_of_timeless {state : CallState} {flight : Flight}
    (h : state.timeless = (CallState.flying flight).timeless) :
    ∃ flight', state = .flying flight' ∧ flight'.key = flight.key ∧
      flight'.result = flight.result := by
  cases state with
  | waiting => simp [timeless] at h
  | ended outcome => simp [timeless] at h
  | flying flight' =>
      refine ⟨flight', rfl, ?_⟩
      simpa [timeless] using h

end CallState

namespace Ledger

variable {ctx : Context} {extender service : Extender} {start : List ExtensionRequest}
  {key : ChainKey} {t t' : Ledger}

/-! ### Steps of calls for other keys -/

theorem map_seenBy_set {calls : List Call} {position : Nat} {call : Call} (state : CallState)
    (here : calls[position]? = some call) (other : call.key ≠ key) :
    (calls.set position { call with state }).map (Call.seenBy key) =
      calls.map (Call.seenBy key) := by
  rw [List.map_set, Call.seenBy_other other]
  exact set_of_getElem? (by rw [List.getElem?_map, here, Option.map_some])

/-- **A step of a call for another key changes nothing that the key sees**, and sends nothing for
it. -/
theorem Step.view_of_other {m : Calls.Move} (s : Step ctx extender m t t') (h : t.Sound ctx start)
    {position : Nat} (acts : m.position? = some position)
    (other : ∀ call, t.calls.calls[position]? = some call → call.key ≠ key) :
    t'.calls.view key = t.calls.view key ∧ t'.sentFor key = t.sentFor key := by
  have hsame : t'.sent = t.sent → t'.sentFor key = t.sentFor key := fun hsent => by
    rw [sentFor, hsent, sentFor]
  have hhere : ∀ {p : Nat} {call : Call}, m.position? = some p → t.calls.calls[p]? = some call →
      call.key ≠ key := by
    intro p call hp hcall
    obtain rfl : p = position := Option.some.inj (hp.symm.trans acts)
    exact other call hcall
  cases s with
  | same still calls sent => exact ⟨by rw [calls], hsame sent⟩
  | share shared => exact absurd (acts.symm.trans shared) (by simp)
  | enter key' begins =>
      subst begins
      exact absurd acts (by simp [Calls.Move.position?])
  | leave p call acts' here unended calls sent run =>
      refine ⟨Calls.view_eq_iff.mpr ⟨by rw [run], by rw [run], ?_⟩, hsame sent⟩
      rw [calls]
      exact map_seenBy_set _ here (hhere acts' here)
  | take p call chain acts' here waits goes kept calls sent run =>
      refine ⟨Calls.view_eq_iff.mpr ⟨by rw [run], by rw [run], ?_⟩, hsame sent⟩
      rw [calls]
      exact map_seenBy_set _ here (hhere acts' here)
  | send p call due answer acts' here waits goes missing only asks calls sent run =>
      have hother := hhere acts' here
      refine ⟨Calls.view_eq_iff.mpr ⟨?_, ?_, ?_⟩, ?_⟩
      · rw [run]
        rfl
      · rw [run]
        rfl
      · rw [calls]
        exact map_seenBy_set _ here hother
      · rw [sentFor, sent, List.filter_append, sentFor]
        simp [hother]
  | land p call flight acts' here flies goes calls sent run =>
      have hother := hhere acts' here
      have hkey := (h.flying here flies).1
      refine ⟨Calls.view_eq_iff.mpr ⟨?_, ?_, ?_⟩, hsame sent⟩
      · rw [run, (Context.landed_log flight t.calls.run).2]
      · rw [run, Context.chain?_landed, hkey, if_neg hother, Option.or_none]
      · rw [calls]
        exact map_seenBy_set _ here hother

/-! ### Steps of the key's own calls -/

/-- A ledger that looks the same to a key, and has the requests for the key and no others. -/
structure Alike (key : ChainKey) (t t' : Ledger) : Prop where
  view : t'.calls.view key = t.calls.view key
  sent : t'.sent = t.sentFor key

theorem isFlying_of_view (h : t.Sound ctx start) (alike : t'.calls.view key = t.calls.view key)
    (flying : t.calls.isFlying key = true) : t'.calls.isFlying key = true := by
  obtain ⟨position, call, flight, hcall, hflies, hkey⟩ := isFlying_iff.mp flying
  obtain ⟨call', hcall', hseen⟩ := Calls.exists_of_view alike hcall
  obtain ⟨-, hstate⟩ := Call.seenBy_eq_iff.mp hseen
  have hstate := hstate ((h.flying hcall hflies).1.symm.trans hkey)
  rw [hflies] at hstate
  obtain ⟨flight', hflies', hkey', -⟩ := CallState.eq_flying_of_timeless hstate
  exact isFlying_iff.mpr ⟨position, call', flight', hcall', hflies', hkey'.trans hkey⟩

variable {ctx' : Context} {start' : List ExtensionRequest}

/-- Calls that look the same to a key go on in the same way, with another service that gives the
same answer. -/
theorem proceed_alike (permitted : ctx.permittedExtender = .ok extender) (h : t.Sound ctx start)
    (h' : t'.Sound ctx' start') (alike : t'.calls.view key = t.calls.view key)
    (repeats : ∀ flight, (t.calls.proceed ctx key).1 = .flying flight →
      ctx.timed (service.answer t'.calls.run.log (ctx.request key)) = flight.result) :
    (t'.calls.proceed (ctx.asking service) key).1.timeless =
        (t.calls.proceed ctx key).1.timeless ∧
      (t'.calls.proceed (ctx.asking service) key).2.cancelled =
        (t.calls.proceed ctx key).2.cancelled ∧
      (t'.calls.proceed (ctx.asking service) key).2.chain? key =
        (t.calls.proceed ctx key).2.chain? key := by
  obtain ⟨hcancelled, hchain, -⟩ := Calls.view_eq_iff.mp alike
  have hflying : t'.calls.isFlying key = t.calls.isFlying key :=
    Bool.eq_iff_iff.mpr ⟨isFlying_of_view h' alike.symm, isFlying_of_view h alike⟩
  unfold Calls.proceed at repeats ⊢
  rw [hcancelled, hflying]
  by_cases hwaits : (!t.calls.run.cancelled && t.calls.isFlying key) = true
  · rw [if_pos hwaits, if_pos hwaits]
    exact ⟨rfl, hcancelled, hchain⟩
  · rw [if_neg hwaits] at repeats ⊢
    rw [if_neg hwaits]
    unfold Context.enquire at repeats ⊢
    by_cases hstopped : t.calls.run.cancelled = true
    · rw [hcancelled, if_pos hstopped, if_pos hstopped]
      exact ⟨rfl, hcancelled, hchain⟩
    · rw [if_neg hstopped] at repeats ⊢
      rw [hcancelled, if_neg hstopped, hchain]
      cases hkept : t.calls.run.chain? key with
      | some chain => exact ⟨rfl, hcancelled, hchain⟩
      | none =>
          rw [hkept, permitted] at repeats
          rw [permitted, Context.permittedExtender_asking permitted]
          refine ⟨?_, hcancelled, hchain⟩
          exact congrArg (fun result => CallState.flying { key, due := 0, result }) (repeats _ rfl)

/-- What a step adds to the requests for a key. -/
theorem sentFor_move (t : Ledger) (m : Calls.Move) :
    (t.move ctx m).sentFor key =
      t.sentFor key ++ (t.calls.sending? ctx m).toList.filter (·.key = key) := by
  rw [sentFor, move, List.filter_append, sentFor]

/-- The step is none of a call, or of a call for the key. -/
def IsOwn (key : ChainKey) (t : Ledger) (m : Calls.Move) : Prop :=
  ∀ {position : Nat} {call : Call}, m.position? = some position →
    t.calls.calls[position]? = some call → call.key = key

/-- The service repeats the answer that the step has got, if it has got one. -/
def Repeats (ctx : Context) (service : Extender) (key : ChainKey) (t t' : Ledger)
    (m : Calls.Move) : Prop :=
  ∀ s, t.calls.sending? ctx m = some s →
    ctx.timed (service.answer t'.calls.run.log (ctx.request key)) = s.result

theorem Alike.look (permitted : ctx.permittedExtender = .ok extender) (h : t.Sound ctx start)
    (h' : t'.Sound ctx' start') (alike : Alike key t t') {position : Nat}
    (own : IsOwn key t (.look position))
    (repeats : Repeats ctx service key t t' (.look position)) :
    Alike key (t.move ctx (.look position)) (t'.move (ctx.asking service) (.look position)) := by
  by_cases hwaits : ∃ call, t.calls.calls[position]? = some call ∧ call.state = .waiting
  · obtain ⟨⟨wanted, state⟩, hcall, hstate⟩ := hwaits
    obtain rfl : state = .waiting := hstate
    obtain rfl : wanted = key := own rfl hcall
    obtain ⟨⟨wanted', state'⟩, hcall', hseen⟩ := Calls.exists_of_view alike.view hcall
    obtain ⟨hsame, hstate⟩ := Call.seenBy_eq_iff.mp hseen
    obtain rfl : wanted' = wanted := hsame
    obtain rfl : state' = .waiting := CallState.eq_waiting_of_timeless (hstate rfl)
    rcases hproceed : t.calls.proceed ctx wanted' with ⟨state, run⟩
    rcases hproceed' : t'.calls.proceed (ctx.asking service) wanted' with ⟨state', run'⟩
    obtain ⟨hcalls, hsending⟩ := move_look hcall hproceed
    obtain ⟨hcalls', hsending'⟩ := move_look hcall' hproceed'
    have hanswer : ∀ flight, (t.calls.proceed ctx wanted').1 = .flying flight →
        ctx.timed (service.answer t'.calls.run.log (ctx.request wanted')) = flight.result := by
      intro flight hflight
      rw [hproceed] at hflight
      obtain rfl : state = .flying flight := hflight
      exact repeats _ hsending
    obtain ⟨htimeless, hcancelled, hchain⟩ := proceed_alike permitted h h' alike.view hanswer
    rw [hproceed, hproceed'] at htimeless hcancelled hchain
    refine ⟨?_, ?_⟩
    · rw [hcalls, hcalls']
      refine Calls.view_set alike.view position hcancelled hchain ?_
      exact Call.seenBy_eq_iff.mpr ⟨rfl, fun _ => htimeless⟩
    · rw [sentFor_move, move, hsending, hsending', alike.sent]
      cases state <;> cases state' <;> simp_all [CallState.timeless]
  · have hidle : ∀ call, t.calls.calls[position]? = some call → call.state ≠ .waiting :=
      fun call hcall hstate => hwaits ⟨call, hcall, hstate⟩
    have hidle' : ∀ call, t'.calls.calls[position]? = some call → call.state ≠ .waiting := by
      intro call' hcall' hstate'
      obtain ⟨call, hcall, hseen⟩ := Calls.exists_of_view alike.view.symm hcall'
      obtain ⟨hsame, hstate⟩ := Call.seenBy_eq_iff.mp hseen.symm
      have hstate := hstate (own rfl hcall)
      rw [hstate'] at hstate
      exact hidle call hcall (CallState.eq_waiting_of_timeless hstate.symm)
    obtain ⟨hcalls, hsending⟩ := move_look_of_not_waiting hidle
    obtain ⟨hcalls', hsending'⟩ := move_look_of_not_waiting hidle'
    refine ⟨?_, ?_⟩
    · rw [hcalls, hcalls', alike.view]
    · rw [sentFor_move, move, hsending, hsending', alike.sent]
      simp

theorem view_land (service : Extender) {c c' : Calls} (alike : c'.view key = c.view key)
    {position : Nat} (own : ∀ call, c.calls[position]? = some call → call.key = key) :
    (c'.land (ctx.asking service) position).view key = (c.land ctx position).view key := by
  obtain ⟨hcancelled, hchain, -⟩ := Calls.view_eq_iff.mp alike
  cases hcall : c.calls[position]? with
  | none =>
      rw [Calls.land, Calls.none_of_view alike hcall, Calls.land, hcall]
      exact alike
  | some call =>
      obtain ⟨call', hcall', hseen⟩ := Calls.exists_of_view alike hcall
      obtain ⟨hsame, hstate⟩ := Call.seenBy_eq_iff.mp hseen
      have hstate := hstate (own call hcall)
      rw [Calls.land, hcall', Calls.land, hcall]
      cases hflight : call.flight? with
      | none =>
          have hflight' : call'.flight? = none := by
            rw [Option.eq_none_iff_forall_ne_some] at hflight ⊢
            intro flight' hflies'
            rw [Call.flight?_eq_some_iff.mp hflies'] at hstate
            obtain ⟨flight, hflies, -⟩ := CallState.eq_flying_of_timeless hstate.symm
            exact hflight flight (Call.flight?_eq_some_iff.mpr hflies)
          simp only [hflight, hflight']
          exact alike
      | some flight =>
          rw [Call.flight?_eq_some_iff.mp hflight] at hstate
          obtain ⟨flight', hflies', hkey, hresult⟩ := CallState.eq_flying_of_timeless hstate
          simp only [hflight, Call.flight?_eq_some_iff.mpr hflies']
          refine Calls.view_set alike position ?_ ?_ ?_
          · rw [(Context.landed_log _ _).2, (Context.landed_log _ _).2, hcancelled]
          · rw [Context.chain?_landed, Context.chain?_landed, hchain, hkey, hresult]
          · rw [hkey, hresult]
            exact Call.seenBy_eq_iff.mpr ⟨hsame, fun _ => rfl⟩

/-- Steps that send nothing add nothing to what is alike but what they do to calls. -/
theorem Alike.silent {m : Calls.Move} (alike : Alike key t t')
    (silent : t.calls.sending? ctx m = none)
    (silent' : t'.calls.sending? (ctx.asking service) m = none)
    (same : (m.apply (ctx.asking service) t'.calls).view key = (m.apply ctx t.calls).view key) :
    Alike key (t.move ctx m) (t'.move (ctx.asking service) m) := by
  refine ⟨same, ?_⟩
  rw [sent_of_silent silent', alike.sent, sentFor, sentFor, sent_of_silent silent]

/-- **A step of a key's own call makes the same of what the key sees, whatever else there is**, if
the service gives the same answer. -/
theorem Alike.move (permitted : ctx.permittedExtender = .ok extender) (h : t.Sound ctx start)
    (h' : t'.Sound ctx' start') (alike : Alike key t t') {m : Calls.Move} (own : IsOwn key t m)
    (repeats : Repeats ctx service key t t' m) :
    Alike key (t.move ctx m) (t'.move (ctx.asking service) m) := by
  obtain ⟨hcancelled, hchain, hcalls⟩ := Calls.view_eq_iff.mp alike.view
  cases m with
  | enter wanted => exact alike.silent rfl rfl (Calls.view_enter alike.view wanted)
  | look position => exact alike.look permitted h h' own repeats
  | land position =>
      refine alike.silent rfl rfl ?_
      simp only [Calls.Move.apply, hcancelled]
      split
      · exact Calls.view_leave alike.view position
      · exact view_land service alike.view fun call hcall => own rfl hcall
  | leave position => exact alike.silent rfl rfl (Calls.view_leave alike.view position)
  | cancel => exact alike.silent rfl rfl (Calls.view_eq_iff.mpr ⟨rfl, hchain, hcalls⟩)
  | pass moment => exact alike.silent rfl rfl (Calls.view_eq_iff.mpr ⟨hcancelled, hchain, hcalls⟩)

/-! ### The key's own calls alone -/

/-- Calls keep their keys, and a call that begins has its own. -/
theorem Step.keys {m : Calls.Move} (s : Step ctx extender m t t') :
    t'.calls.calls.map Call.key = t.calls.calls.map Call.key ++ m.entered?.toList := by
  have hset : ∀ {position : Nat} {call : Call} (state : CallState), m.position? = some position →
      t.calls.calls[position]? = some call →
      (t.calls.calls.set position { call with state }).map Call.key =
        t.calls.calls.map Call.key ++ m.entered?.toList := by
    intro position call state acts here
    have hstill : m.entered? = none := by
      cases m <;> simp_all [Calls.Move.position?, Calls.Move.entered?]
    rw [hstill, Option.toList_none, List.append_nil, List.map_set]
    exact set_of_getElem? (by rw [List.getElem?_map, here, Option.map_some])
  cases s with
  | same still calls => rw [calls, still, Option.toList_none, List.append_nil]
  | share shared still calls => rw [calls, still, Option.toList_none, List.append_nil]
  | enter key' begins calls =>
      rw [calls, begins, List.map_append]
      rfl
  | leave p call acts here unended calls => rw [calls, hset _ acts here]
  | take p call chain acts here waits goes kept calls => rw [calls, hset _ acts here]
  | send p call due answer acts here waits goes missing only asks calls =>
      rw [calls, hset _ acts here]
  | land p call flight acts here flies goes calls => rw [calls, hset _ acts here]

/-- A request is sent by a call for its key, at its own step. -/
theorem exists_of_sending {m : Calls.Move} {s : Sending} (h : t.calls.sending? ctx m = some s) :
    m.position? = some s.position ∧ ∃ call, t.calls.calls[s.position]? = some call ∧
      call.key = s.key := by
  cases m with
  | look position =>
      simp only [Calls.sending?] at h
      split at h
      · next wanted hcall =>
          split at h
          · obtain rfl := Option.some.inj h
            exact ⟨rfl, _, hcall, rfl⟩
          · exact absurd h (by simp)
      · exact absurd h (by simp)
  | enter wanted => exact absurd h (by simp [Calls.sending?])
  | land position => exact absurd h (by simp [Calls.sending?])
  | leave position => exact absurd h (by simp [Calls.sending?])
  | cancel => exact absurd h (by simp [Calls.sending?])
  | pass moment => exact absurd h (by simp [Calls.sending?])

theorem sentFor_prefix_after (ctx : Context) (key : ChainKey) (moves : List Calls.Move) :
    ∀ t : Ledger, t.sentFor key <+: (t.after ctx moves).sentFor key := by
  induction moves with
  | nil =>
      intro t
      exact List.prefix_refl _
  | cons m rest ih =>
      intro t
      refine List.IsPrefix.trans ?_ (ih (t.move ctx m))
      rw [sentFor_move]
      exact List.prefix_append _ _

end Ledger

/-- The keys of calls in the order in which they begin. -/
def Calls.Move.keys (moves : List Calls.Move) : List ChainKey := moves.filterMap Calls.Move.entered?

/-- The step is none of a call, or of a call for the key; calls have the given keys. -/
def Calls.Move.concerns (keys : List ChainKey) (key : ChainKey) (m : Calls.Move) : Bool :=
  match m.position? with
  | some position => keys[position]? = some key
  | _ => true

namespace Ledger

variable {ctx : Context} {extender service : Extender} {start : List ExtensionRequest}
  {key : ChainKey} {t t' : Ledger}

theorem getElem?_keys {more : List ChainKey} {position : Nat} {call : Call}
    (here : t.calls.calls[position]? = some call) :
    (t.calls.calls.map Call.key ++ more)[position]? = some call.key := by
  have hlt : position < (t.calls.calls.map Call.key).length := by
    rw [List.length_map]
    exact (List.getElem?_eq_some_iff.mp here).1
  rw [List.getElem?_append_left hlt, List.getElem?_map, here, Option.map_some]

/-- What is sent now comes next among the requests for the key, whatever is sent later. -/
theorem getElem?_sentFor_after {m : Calls.Move} {rest : List Calls.Move} {s : Sending}
    (sends : t.calls.sending? ctx m = some s) (own : s.key = key) :
    ((t.after ctx (m :: rest)).sentFor key)[(t.sentFor key).length]? = some s := by
  have hnow : (t.move ctx m).sentFor key = t.sentFor key ++ [s] := by
    rw [sentFor_move, sends]
    simp [own]
  obtain ⟨more, hmore⟩ := sentFor_prefix_after ctx key rest (t.move ctx m)
  rw [after_cons, ← hmore, hnow, List.append_assoc, List.getElem?_append_right (Nat.le_refl _),
    Nat.sub_self]
  rfl

/-- **Without the steps of calls for other keys, the calls for a key send the same requests and
stand where they stand**, if the service repeats its answers. -/
theorem Alike.after (permitted : ctx.permittedExtender = .ok extender) {keys : List ChainKey}
    {moves : List Calls.Move} :
    ∀ {t t' : Ledger}, t.Sound ctx start → t'.Sound (ctx.asking service) start → Alike key t t' →
      t.calls.calls.map Call.key ++ Calls.Move.keys moves = keys →
      (∀ n s, ((t.after ctx moves).sentFor key)[n]? = some s →
        ∀ log : List ExtensionRequest, log.length = start.length + n →
          ctx.timed (service.answer log (ctx.request key)) = s.result) →
      Alike key (t.after ctx moves)
        (t'.after (ctx.asking service) (moves.filter (·.concerns keys key))) := by
  induction moves with
  | nil =>
      intro t t' _ _ alike _ _
      exact alike
  | cons m rest ih =>
      intro t t' h h' alike hkeys repeats
      have hstep := step permitted t m
      have hstep' := step (Context.permittedExtender_asking permitted service) t' m
      have hkeys' : (t.move ctx m).calls.calls.map Call.key ++ Calls.Move.keys rest = keys := by
        rw [hstep.keys, ← hkeys, List.append_assoc]
        cases hentered : m.entered? <;> simp [Calls.Move.keys, hentered]
      have hplace : ∀ {p : Nat} {call : Call}, t.calls.calls[p]? = some call →
          keys[p]? = some call.key := by
        intro p call hcall
        rw [← hkeys, getElem?_keys hcall]
      by_cases hconcerns : m.concerns keys key = true
      · -- The step is kept, and does the same on both sides.
        have hown : IsOwn key t m := by
          intro p call acts hcall
          rw [Calls.Move.concerns, acts, decide_eq_true_eq, hplace hcall] at hconcerns
          exact Option.some.inj hconcerns
        have hrepeats : Repeats ctx service key t t' m := by
          intro s hs
          obtain ⟨acts, call, hcall, hsame⟩ := exists_of_sending hs
          have hkey : s.key = key := hsame.symm.trans (hown acts hcall)
          refine repeats _ s (getElem?_sentFor_after hs hkey) _ ?_
          rw [h'.log, List.length_append, List.length_map, alike.sent]
        rw [List.filter_cons_of_pos hconcerns]
        exact ih (h.step hstep) (h'.step hstep') (alike.move permitted h h' hown hrepeats) hkeys'
          repeats
      · -- The step is left out, and the key sees nothing of it.
        rw [List.filter_cons_of_neg hconcerns]
        refine ih (h.step hstep) h' ?_ hkeys' repeats
        cases hposition : m.position? with
        | none => exact absurd (by rw [Calls.Move.concerns, hposition]) hconcerns
        | some p =>
            have hother : ∀ call, t.calls.calls[p]? = some call → call.key ≠ key := by
              rintro call hcall rfl
              refine hconcerns ?_
              rw [Calls.Move.concerns, hposition, decide_eq_true_eq]
              exact hplace hcall
            obtain ⟨hview, hsent⟩ := hstep.view_of_other h hposition hother
            exact ⟨alike.view.trans hview.symm, alike.sent.trans hsent.symm⟩

/-- There is a service that gives answers in an order. -/
theorem exists_service {sent : List Sending}
    (answered : ∀ s ∈ sent, ∃ answer, s.result = ctx.timed answer) (before : Nat) :
    ∃ service : Extender, ∀ (n : Nat) (s : Sending), sent[n]? = some s →
      ∀ log : List ExtensionRequest, log.length = before + n →
        ∀ request, ctx.timed (service.answer log request) = s.result := by
  have hanswer : ∀ n : Nat, ∃ answer, ∀ s : Sending, sent[n]? = some s →
      s.result = ctx.timed answer := by
    intro n
    cases hs : sent[n]? with
    | none => exact ⟨{ delay := 0, result := .error (.unavailable "") }, by simp⟩
    | some s =>
        obtain ⟨answer, hanswer⟩ := answered s (List.mem_of_getElem? hs)
        exact ⟨answer, fun s' hs' => by rw [← Option.some.inj hs', hanswer]⟩
  obtain ⟨answer, hanswer⟩ := Classical.skolem.mp hanswer
  refine ⟨⟨fun log _ => answer (log.length - before)⟩, fun n s hs log hlog request => ?_⟩
  have hn : log.length - before = n := by omega
  show ctx.timed (answer (log.length - before)) = s.result
  rw [hn, hanswer n s hs]

/-- **A key's calls alone send the same requests and come to the same**, with a service that answers
them as they were answered. -/
theorem exists_service_alone (permitted : ctx.permittedExtender = .ok extender) (run : Run)
    (moves : List Calls.Move) (key : ChainKey) :
    ∃ service : Extender, Alike key ((Ledger.start run).after ctx moves)
      ((Ledger.start run).after (ctx.asking service)
        (moves.filter (·.concerns (Calls.Move.keys moves) key))) := by
  have hsound : ((Ledger.start run).after ctx moves).Sound ctx run.log :=
    (sound_start ctx run).after permitted
  have hanswered : ∀ s ∈ ((Ledger.start run).after ctx moves).sentFor key,
      ∃ answer, s.result = ctx.timed answer :=
    fun s hs => hsound.answered s (List.mem_filter.mp hs).1
  obtain ⟨service, hservice⟩ := exists_service hanswered run.log.length
  refine ⟨service,
    Alike.after permitted (sound_start ctx run) (sound_start _ run) ⟨rfl, rfl⟩ rfl ?_⟩
  exact fun n s hs log hlog => hservice n s hs log hlog _

end Ledger

end Keyless
