/-
Calls at once keep nothing that the service did not answer either.

Several calls for extended chains can be under way together, and their events come
in any order.  Besides the chains that are kept there are then chains on their way,
so the invariant speaks of both (`Context.DeliveredCalls`): one event preserves it
(`DeliveredCalls.event`), and so does any sequence of them.

With that, everything that can become of the run of a verification is covered:
calls one after another, calls at once, cancellations and waiting
(`Context.Reaches`).
-/
import Keyless.Proofs.Verification.Extension
import Keyless.Verification.Calls

namespace Keyless

namespace Context

variable {ctx : Context} {start : List ExtensionRequest}

theorem Backed.mono {log log' : List ExtensionRequest} {flight : Flight}
    (h : ctx.Backed start log flight) (grown : log <+: log') : ctx.Backed start log' flight :=
  fun chain hchain => (h chain hchain).mono grown

/-- Every chain that is kept or on its way was answered by the service since `start`. -/
structure DeliveredCalls (ctx : Context) (start : List ExtensionRequest) (c : Calls) : Prop where
  run : ctx.Delivered start c.run
  flights : ∀ call ∈ c.calls, ∀ flight, call.flight? = some flight →
    ctx.Backed start c.run.log flight

/-- A call that has no request under way goes on with what was delivered, perhaps with a request
that is backed. -/
theorem DeliveredCalls.proceed {c : Calls} (h : ctx.DeliveredCalls start c) (key : ChainKey) :
    ctx.Delivered start (c.proceed ctx key).2 ∧ c.run.log <+: (c.proceed ctx key).2.log ∧
      ∀ flight, (Call.mk key (c.proceed ctx key).1).flight? = some flight →
        ctx.Backed start (c.proceed ctx key).2.log flight := by
  have hidle : ∀ outcome, ∀ flight, (Call.mk key (.ended outcome)).flight? = some flight →
      ctx.Backed start c.run.log flight := by
    intro outcome flight hflight
    simp [Call.flight?] at hflight
  unfold Calls.proceed
  by_cases hwaits : (!c.run.cancelled && c.isFlying key) = true
  · rw [if_pos hwaits]
    exact ⟨h.run, List.prefix_refl _, fun flight hflight => by simp [Call.flight?] at hflight⟩
  · rw [if_neg hwaits]
    rcases ctx.enquire_cases key c.run with ⟨-, hcall⟩ | ⟨-, chain, -, hcall⟩ |
      ⟨-, -, failure, -, hcall⟩ | ⟨-, -, extender, due, hpermitted, hcall⟩
    · rw [hcall]
      exact ⟨h.run, List.prefix_refl _, hidle _⟩
    · rw [hcall]
      exact ⟨h.run, List.prefix_refl _, hidle _⟩
    · rw [hcall]
      exact ⟨h.run, List.prefix_refl _, hidle _⟩
    · rw [hcall]
      refine ⟨h.run.asked key, List.prefix_append _ _, fun flight hflight => ?_⟩
      obtain rfl := Option.some.inj hflight
      exact h.run.backed hpermitted due

theorem DeliveredCalls.replace {c : Calls} (h : ctx.DeliveredCalls start c) {run' : Run}
    {calls : List Call} (delivered : ctx.Delivered start run') (grown : c.run.log <+: run'.log)
    (each : ∀ call ∈ calls, call ∈ c.calls ∨
      ∀ flight, call.flight? = some flight → ctx.Backed start run'.log flight) :
    ctx.DeliveredCalls start { run := run', calls } := by
  refine ⟨delivered, fun call hcall flight hflight => ?_⟩
  rcases each call hcall with hold | hnew
  · exact (h.flights call hold flight hflight).mono grown
  · exact hnew flight hflight

/-- **No event keeps or sends for anything that the service did not answer.** -/
theorem DeliveredCalls.event {c : Calls} (h : ctx.DeliveredCalls start c) (event : Calls.Event) :
    ctx.DeliveredCalls start (event.apply ctx c) := by
  cases event with
  | begin key =>
      obtain ⟨hrun, hlog, hflight⟩ := h.proceed key
      refine h.replace hrun hlog (fun call hcall => ?_)
      rcases List.mem_append.mp hcall with hold | hnew
      · exact Or.inl hold
      · rw [List.mem_singleton.mp hnew]
        exact Or.inr hflight
  | wake position =>
      show ctx.DeliveredCalls start (c.wake ctx position)
      unfold Calls.wake
      split
      · next call _ =>
          split
          · obtain ⟨hrun, hlog, hflight⟩ := h.proceed call.key
            refine h.replace hrun hlog (fun other hother => ?_)
            rcases List.mem_or_eq_of_mem_set hother with hold | rfl
            · exact Or.inl hold
            · exact Or.inr hflight
          · exact h
      · exact h
  | land position =>
      show ctx.DeliveredCalls start (c.land ctx position)
      unfold Calls.land
      split
      · next call hcall =>
          split
          · next flight hflight =>
              have hbacked := h.flights call (List.mem_of_getElem? hcall) flight hflight
              have hgrown : c.run.log <+: (landed flight c.run).log :=
                ⟨[], by rw [List.append_nil, (landed_log flight c.run).1]⟩
              refine h.replace (h.run.landed hbacked) hgrown (fun other hother => ?_)
              rcases List.mem_or_eq_of_mem_set hother with hold | rfl
              · exact Or.inl hold
              · exact Or.inr (fun flight hflight => by simp [Call.flight?] at hflight)
          · exact h
      · exact h
  | cancel =>
      refine h.replace (h.run.grow (List.prefix_refl _) (fun _ => rfl)) (List.prefix_refl _)
        (fun call hcall => ?_)
      -- A cancelled call has no request under way any more.
      obtain ⟨before, -, rfl⟩ := List.mem_map.mp hcall
      refine Or.inr (fun flight hflight => ?_)
      obtain ⟨key, state⟩ := before
      cases state <;> simp [Call.cancelled, Call.flight?] at hflight

/-- Nor do events one after another. -/
theorem DeliveredCalls.after {events : List Calls.Event} :
    ∀ {c : Calls}, ctx.DeliveredCalls start c → ctx.DeliveredCalls start (c.after ctx events) := by
  induction events with
  | nil =>
      intro c h
      exact h
  | cons event rest ih =>
      intro c h
      exact ih (h.event event)

/-- What can become of the run of a verification, from its start on. -/
inductive Reaches (ctx : Context) (start : List ExtensionRequest) : Run → Prop
  | start : Reaches ctx start (Run.start start)
  /-- One call, from beginning to end. -/
  | call {run : Run} (h : Reaches ctx start run) (key : ChainKey) :
      Reaches ctx start (ctx.extendedChain key run).2
  /-- Calls at once, as far as some of their events. -/
  | calls {run : Run} (h : Reaches ctx start run) (events : List Calls.Event) :
      Reaches ctx start ((Calls.none run).after ctx events).run
  | cancel {run : Run} (h : Reaches ctx start run) : Reaches ctx start run.cancel
  | cancelAfter {run : Run} (h : Reaches ctx start run) (span : Duration) :
      Reaches ctx start (run.cancelAfter span)
  | wait {run : Run} (h : Reaches ctx start run) (moment : Nat) :
      Reaches ctx start (run.waitUntil moment)

/-- **In every run of a verification the service has answered every chain that is kept.** -/
theorem Reaches.delivered {run : Run} (h : ctx.Reaches start run) : ctx.Delivered start run := by
  induction h with
  | start =>
      refine ⟨List.prefix_refl _, fun key chain hkept => ?_⟩
      simp [Run.chain?, Run.start] at hkept
  | call _ key ih => exact ih.call key
  | calls _ events ih =>
      have hnone : ctx.DeliveredCalls start (Calls.none _) :=
        ⟨ih, fun call hcall => absurd hcall List.not_mem_nil⟩
      exact hnone.after.run
  | cancel _ ih => exact ih.grow (List.prefix_refl _) (fun _ => rfl)
  | cancelAfter _ span ih => exact ih.grow (List.prefix_refl _) (fun _ => rfl)
  | wait _ moment ih => exact ih.grow (List.prefix_refl _) (fun _ => rfl)

/-- **Whatever chain a call returns, the service has answered with it.** -/
theorem Reaches.answered {run run' : Run} (h : ctx.Reaches start run) {key : ChainKey}
    {chain : CalendarChain} (called : ctx.extendedChain key run = (.ok (.ok chain), run')) :
    ctx.Answered start run'.log key chain := by
  obtain ⟨-, hkept, -⟩ := chain?_of_extendedChain called
  have hdelivered := (h.call key).delivered
  rw [called] at hdelivered
  exact hdelivered.answered key chain hkept

end Context

end Keyless
