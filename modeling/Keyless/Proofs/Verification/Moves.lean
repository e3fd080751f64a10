/-
Calls for extended chains, one step of one call at a time.

The events of `Calls` begin a call and let it look in one go, and cancel all calls at
once.  Here a call begins, looks, lands and leaves by steps of its own, the
cancellation is one more step that no call has noticed yet, and the steps come in any
order (`Calls.Move`).  What a step does to the calls is still what `Calls` does, except
that a call may leave by itself.

Nothing is lost by that.  Whatever events make of calls is also made of them by steps
(`Calls.exists_moved_eq_after`), and a call that nothing interrupts goes by steps where
`Context.extendedChain` takes it at once (`Calls.exists_moved_eq_extendedChain`).  So
what is shown of all steps holds of calls one after another, of calls at once, and of
whatever lies between.
-/
import Keyless.Proofs.Verification.Extension
import Keyless.Verification.Calls

namespace Keyless

namespace Calls

/-! ### Steps -/

/-- The call waits, not having looked yet. -/
def enter (key : ChainKey) (c : Calls) : Calls :=
  { c with calls := c.calls ++ [{ key, state := .waiting }] }

/-- The call at a position ends, if it has not, without waiting for its chain any longer. -/
def leave (position : Nat) (c : Calls) : Calls :=
  match c.calls[position]? with
  | some call => { c with calls := c.calls.set position call.cancelled }
  | _ => c

/-- One step of one call, or of what all calls share. -/
inductive Move where
  /-- A call begins. -/
  | enter (key : ChainKey)
  /-- The call at a position looks for a chain, and if it may, asks for one. -/
  | look (position : Nat)
  /-- The call at a position takes what its request has come to, unless the run is cancelled. -/
  | land (position : Nat)
  /-- The call at a position notices the cancellation, or is dropped by its caller. -/
  | leave (position : Nat)
  | cancel
  | pass (moment : Nat)

namespace Move

/-- The call that does the step. -/
def position? : Move → Option Nat
  | .look position | .land position | .leave position => some position
  | _ => Option.none

/-- The key of the call that begins with the step. -/
def entered? : Move → Option ChainKey
  | .enter key => some key
  | _ => Option.none

end Move

/-- What a step does. -/
def Move.apply (ctx : Context) : Move → Calls → Calls
  | .enter key, c => c.enter key
  | .look position, c => c.wake ctx position
  | .land position, c => if c.run.cancelled then c.leave position else c.land ctx position
  | .leave position, c => c.leave position
  | .cancel, c => { c with run := c.run.cancel }
  | .pass moment, c => { c with run := c.run.waitUntil moment }

/-- Steps one after another. -/
def moved (ctx : Context) (moves : List Move) (c : Calls) : Calls :=
  moves.foldl (fun c move => move.apply ctx c) c

variable {ctx : Context}

theorem moved_cons (move : Move) (rest : List Move) (c : Calls) :
    c.moved ctx (move :: rest) = (move.apply ctx c).moved ctx rest := rfl

theorem moved_append (first rest : List Move) (c : Calls) :
    c.moved ctx (first ++ rest) = (c.moved ctx first).moved ctx rest :=
  List.foldl_append

/-! ### What events and calls are made of -/

/-- A call that has just begun has no part in how calls go on. -/
theorem proceed_enter (ctx : Context) (key wanted : ChainKey) (c : Calls) :
    (c.enter wanted).proceed ctx key = c.proceed ctx key := by
  have hflying : (c.enter wanted).isFlying key = c.isFlying key := by
    simp [isFlying, enter, List.any_append, Call.flight?]
  unfold proceed
  rw [hflying]
  rfl

theorem moved_begin (ctx : Context) (key : ChainKey) (c : Calls) :
    c.moved ctx [.enter key, .look c.calls.length] = c.begin ctx key := by
  have hcall : (c.enter key).calls[c.calls.length]? = some { key, state := .waiting } := by
    simp [enter]
  show (c.enter key).wake ctx c.calls.length = _
  rw [wake, hcall]
  simp only [Call.isWaiting, if_true, proceed_enter]
  rw [begin]
  simp [enter]

theorem moved_leave (ctx : Context) (run : Run) (back : List Call) :
    ∀ front : List Call,
      moved ctx ((List.range' front.length back.length).map .leave)
        { run, calls := front ++ back } =
        { run, calls := front ++ back.map Call.cancelled } := by
  induction back with
  | nil =>
      intro front
      rfl
  | cons call rest ih =>
      intro front
      have hleft : leave front.length { run, calls := front ++ call :: rest } =
          { run, calls := (front ++ [call.cancelled]) ++ rest } := by
        simp [leave]
      have hrest := ih (front ++ [call.cancelled])
      rw [List.length_append, List.length_singleton] at hrest
      rw [List.length_cons, List.range'_succ, List.map_cons, moved_cons]
      show moved ctx _ (leave front.length { run, calls := front ++ call :: rest }) = _
      rw [hleft, hrest, List.map_cons, List.append_assoc]
      rfl

/-- In a cancelled run no request is under way any more. -/
def IsCalm (c : Calls) : Prop :=
  c.run.cancelled = true → ∀ call ∈ c.calls, call.flight? = Option.none

/-- **Steps do whatever an event does.** -/
theorem exists_moved_eq_event {c : Calls} (calm : c.IsCalm) (event : Event) :
    ∃ moves, c.moved ctx moves = event.apply ctx c := by
  cases event with
  | begin key => exact ⟨_, moved_begin ctx key c⟩
  | wake position => exact ⟨[.look position], rfl⟩
  | land position =>
      by_cases hcancelled : c.run.cancelled = true
      · refine ⟨[], ?_⟩
        show c = c.land ctx position
        rw [land]
        cases hcall : c.calls[position]? with
        | none => rfl
        | some call =>
            have hidle := calm hcancelled call (List.mem_of_getElem? hcall)
            simp [hidle]
      · refine ⟨[.land position], ?_⟩
        show (if c.run.cancelled = true then c.leave position else c.land ctx position) = _
        rw [if_neg hcancelled]
        rfl
  | cancel =>
      refine ⟨.cancel :: (List.range' 0 c.calls.length).map .leave, ?_⟩
      rw [moved_cons]
      exact moved_leave ctx c.run.cancel c.calls []

/-- How a call goes on does not cancel the run, and in a cancelled run it asks for nothing. -/
theorem proceed_calm (ctx : Context) (c : Calls) (key : ChainKey) :
    (c.proceed ctx key).2.cancelled = c.run.cancelled ∧
      (c.run.cancelled = true → (Call.mk key (c.proceed ctx key).1).flight? = Option.none) := by
  unfold proceed
  by_cases hwaits : (!c.run.cancelled && c.isFlying key) = true
  · rw [if_pos hwaits]
    exact ⟨rfl, fun _ => rfl⟩
  · rw [if_neg hwaits]
    rcases ctx.enquire_cases key c.run with ⟨-, hcall⟩ | ⟨-, chain, -, hcall⟩ |
      ⟨-, -, failure, -, hcall⟩ | ⟨hgoes, -, extender, due, -, hcall⟩
    · rw [hcall]
      exact ⟨rfl, fun _ => rfl⟩
    · rw [hcall]
      exact ⟨rfl, fun _ => rfl⟩
    · rw [hcall]
      exact ⟨rfl, fun _ => rfl⟩
    · rw [hcall]
      exact ⟨rfl, fun hcancelled => absurd hcancelled (by simp [hgoes])⟩

theorem IsCalm.event {c : Calls} (calm : c.IsCalm) (event : Event) :
    (event.apply ctx c).IsCalm := by
  cases event with
  | begin key =>
      obtain ⟨hsame, hidle⟩ := proceed_calm ctx c key
      intro hcancelled call hcall
      have hcancelled : c.run.cancelled = true := hsame.symm.trans hcancelled
      rcases List.mem_append.mp hcall with hold | hnew
      · exact calm hcancelled call hold
      · rw [List.mem_singleton.mp hnew]
        exact hidle hcancelled
  | wake position =>
      show (c.wake ctx position).IsCalm
      unfold wake
      split
      · next call _ =>
          split
          · obtain ⟨hsame, hidle⟩ := proceed_calm ctx c call.key
            intro hcancelled other hother
            have hcancelled : c.run.cancelled = true := hsame.symm.trans hcancelled
            rcases List.mem_or_eq_of_mem_set hother with hold | rfl
            · exact calm hcancelled other hold
            · exact hidle hcancelled
          · exact calm
      · exact calm
  | land position =>
      show (c.land ctx position).IsCalm
      unfold land
      split
      · next call _ =>
          split
          · next flight _ =>
              intro hcancelled other hother
              have hcancelled : c.run.cancelled = true :=
                (Context.landed_log flight c.run).2.symm.trans hcancelled
              rcases List.mem_or_eq_of_mem_set hother with hold | rfl
              · exact calm hcancelled other hold
              · rfl
          · exact calm
      · exact calm
  | cancel =>
      intro _ call hcall
      obtain ⟨⟨key, state⟩, -, rfl⟩ := List.mem_map.mp hcall
      cases state <;> rfl

/-- **Whatever comes of calls by events comes of them by steps.** -/
theorem exists_moved_eq_after {events : List Event} :
    ∀ {c : Calls}, c.IsCalm → ∃ moves, c.moved ctx moves = c.after ctx events := by
  induction events with
  | nil =>
      intro c _
      exact ⟨[], rfl⟩
  | cons event rest ih =>
      intro c calm
      obtain ⟨first, hfirst⟩ : ∃ first, c.moved ctx first = event.apply ctx c :=
        exists_moved_eq_event calm event
      obtain ⟨others, hothers⟩ := ih (calm.event event)
      exact ⟨first ++ others, by rw [moved_append, hfirst, hothers]; rfl⟩

/-- **A call on its own, from beginning to end, is made of steps**, if no request for its key is
under way. -/
theorem exists_moved_eq_extendedChain (ctx : Context) (key : ChainKey) {c : Calls}
    (idle : c.isFlying key = false) :
    ∃ moves, c.moved ctx moves =
      { run := (ctx.extendedChain key c.run).2
        calls := c.calls ++ [{ key, state := .ended (ctx.extendedChain key c.run).1 }] } := by
  have hidle : ¬ (!c.run.cancelled && c.isFlying key) = true := by
    rw [idle, Bool.and_false]
    decide
  have hbegun : ∀ {state : CallState} {run : Run}, c.proceed ctx key = (state, run) →
      c.moved ctx [.enter key, .look c.calls.length] =
        { run, calls := c.calls ++ [{ key, state }] } := by
    intro state run hproceed
    rw [moved_begin, begin, hproceed]
  rcases ctx.enquire_cases key c.run with ⟨-, hcall⟩ | ⟨-, chain, -, hcall⟩ |
    ⟨-, -, failure, -, hcall⟩ | ⟨hgoes, -, extender, due, -, hcall⟩
  · refine ⟨_, hbegun ?_⟩
    rw [proceed, if_neg hidle, Context.extendedChain, hcall]
  · refine ⟨_, hbegun ?_⟩
    rw [proceed, if_neg hidle, Context.extendedChain, hcall]
  · refine ⟨_, hbegun ?_⟩
    rw [proceed, if_neg hidle, Context.extendedChain, hcall]
  · have hasked := hbegun (by rw [proceed, if_neg hidle, hcall])
    rw [Context.extendedChain, hcall]
    show ∃ moves, c.moved ctx moves =
      { run := (ctx.settle _ (ctx.asked key c.run)).2
        calls := c.calls ++ [{ key, state := .ended (ctx.settle _ (ctx.asked key c.run)).1 }] }
    unfold Context.settle
    split
    · next moment _ =>
        refine ⟨[.enter key, .look c.calls.length] ++ [.pass moment, .cancel,
          .leave c.calls.length], ?_⟩
        rw [moved_append, hasked]
        simp [moved, Move.apply, leave, Call.cancelled]
    · refine ⟨[.enter key, .look c.calls.length] ++ [.land c.calls.length], ?_⟩
      rw [moved_append, hasked]
      simp [moved, Move.apply, land, Call.flight?, Context.asked, hgoes]

end Calls

end Keyless
