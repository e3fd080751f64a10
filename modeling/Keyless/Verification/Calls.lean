/-
Several calls for extended chains at once.

At most one request for a key is under way at a time.  A call for a key whose
request is under way waits for it: if the request delivers a chain, the waiting
calls take it; if it fails, only the call that sent it fails, and the first of
the others sends a request of its own.

The calls are a state machine.  `Calls.together` drives it the one way in which
all calls begin at the same moment and time then passes.
-/
import Keyless.Verification.Run

namespace Keyless

/-- Where a call stands. -/
inductive CallState where
  /-- Another call's request for the key is under way. -/
  | waiting
  /-- The call's own request is under way. -/
  | flying (flight : Flight)
  | ended (outcome : ChainOutcome)

/-- A call for the chain with a key. -/
structure Call where
  key : ChainKey
  state : CallState

namespace Call

/-- The call's request, if it is under way. -/
def flight? (call : Call) : Option Flight :=
  match call.state with
  | .flying flight => some flight
  | _ => none

/-- Whether the call waits for another call's request. -/
def isWaiting (call : Call) : Bool :=
  match call.state with
  | .waiting => true
  | _ => false

/-- What the call came to, if it has ended. -/
def outcome? (call : Call) : Option ChainOutcome :=
  match call.state with
  | .ended outcome => some outcome
  | _ => none

/-- The call ended by a cancellation, unless it has ended. -/
def cancelled (call : Call) : Call :=
  match call.state with
  | .ended _ => call
  | _ => { call with state := .ended (.error .cancelled) }

end Call

/-- Calls in the order in which they began, and the run that they share. -/
structure Calls where
  run : Run
  calls : List Call

namespace Calls

/-- No calls yet. -/
def none (run : Run) : Calls := { run, calls := [] }

/-- Whether a request for the key is under way. -/
def isFlying (c : Calls) (key : ChainKey) : Bool :=
  c.calls.any fun call => call.flight?.any (·.key = key)

/-- How a call goes on that has no request under way. -/
def proceed (ctx : Context) (c : Calls) (key : ChainKey) : CallState × Run :=
  if !c.run.cancelled && c.isFlying key then (.waiting, c.run)
  else
    match ctx.enquire key c.run with
    | (.refused, run) => (.ended (.error .cancelled), run)
    | (.ready result, run) => (.ended (ctx.judge key result), run)
    | (.underWay flight, run) => (.flying flight, run)

/-- A new call begins. -/
def begin (ctx : Context) (key : ChainKey) (c : Calls) : Calls :=
  let (state, run) := c.proceed ctx key
  { run, calls := c.calls ++ [{ key, state }] }

/-- The call at a position looks again, if it waits. -/
def wake (ctx : Context) (position : Nat) (c : Calls) : Calls :=
  match c.calls[position]? with
  | some call =>
    if call.isWaiting then
      let (state, run) := c.proceed ctx call.key
      { run, calls := c.calls.set position { call with state } }
    else c
  | _ => c

/-- The request of the call at a position lands, if one is under way. -/
def land (ctx : Context) (position : Nat) (c : Calls) : Calls :=
  match c.calls[position]? with
  | some call =>
    match call.flight? with
    | some flight =>
      { run := Context.landed flight c.run
        calls := c.calls.set position
          { call with state := .ended (ctx.judge flight.key flight.result) } }
    | _ => c
  | _ => c

/-- The run is cancelled, and every call that has not ended with it. -/
def cancel (c : Calls) : Calls := { run := c.run.cancel, calls := c.calls.map Call.cancelled }

/-- One thing that can happen to calls. -/
inductive Event where
  | begin (key : ChainKey)
  | wake (position : Nat)
  | land (position : Nat)
  | cancel

/-- What an event does. -/
def Event.apply (ctx : Context) : Event → Calls → Calls
  | .begin key, c => c.begin ctx key
  | .wake position, c => c.wake ctx position
  | .land position, c => c.land ctx position
  | .cancel, c => c.cancel

/-- Events one after another. -/
def after (ctx : Context) (events : List Event) (c : Calls) : Calls :=
  events.foldl (fun c event => event.apply ctx c) c

/-- The earliest flight among calls, the first of several, with its position. -/
def earliest? : Nat → List Call → Option (Nat × Flight)
  | _, [] => Option.none
  | position, call :: rest =>
    match call.flight?, earliest? (position + 1) rest with
    | some flight, some (later, other) =>
      if other.due < flight.due then some (later, other) else some (position, flight)
    | some flight, Option.none => some (position, flight)
    | Option.none, other => other

/-- Lets time pass until every call has ended; `fuel` is at least the number of calls. -/
def drive (ctx : Context) : Nat → Calls → Calls
  | 0, c => c
  | fuel + 1, c =>
    match earliest? 0 c.calls with
    | Option.none => c
    | some (position, flight) =>
      match c.run.cancelledBefore? flight.due with
      | some moment => Calls.cancel { c with run := c.run.waitUntil moment }
      | Option.none =>
        let landed := c.land ctx position
        let woken := (List.range c.calls.length).foldl (fun c i => c.wake ctx i) landed
        drive ctx fuel woken

/-- Calls for several chains that all begin now, in order; their outcomes, and the run after. -/
def together (ctx : Context) (keys : List ChainKey) (run : Run) : List ChainOutcome × Run :=
  let begun := keys.foldl (fun c key => c.begin ctx key) (Calls.none run)
  let done := begun.drive ctx keys.length
  (done.calls.filterMap Call.outcome?, done.run)

end Calls

end Keyless
