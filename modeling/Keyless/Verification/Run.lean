/-
The state of a verification, and asking for extended chains.

A run keeps the chains that the extension service has delivered, one for each
publication time, and never asks for those again; failures are not kept.  Time
is counted in milliseconds and moves only while a request is under way.  The
run can be cancelled, at once or at a moment that has been set.

A call for an extended chain has two parts.  `Context.enquire` decides at once,
or sends a request off; `Context.settle` waits until the request is answered,
has taken too long, or is overtaken by the cancellation.
-/
import Keyless.Extension.Signature
import Keyless.Verification.Context

namespace Keyless

/-- The publication time for which a chain is wanted, or the newest one's. -/
abbrev ChainKey := Option Time

/-- The state of a verification. -/
structure Run where
  /-- The requests that the service has had, earlier verifications' included. -/
  log : List ExtensionRequest
  /-- Milliseconds since the start. -/
  now : Nat
  /-- The chains delivered so far. -/
  chains : List (ChainKey × CalendarChain)
  cancelled : Bool
  /-- When the run will be cancelled, if that is set. -/
  cancelAt : Option Nat

namespace Run

/-- The start of a verification. -/
def start (log : List ExtensionRequest) : Run :=
  { log, now := 0, chains := [], cancelled := false, cancelAt := none }

/-- The chain delivered for a key. -/
def chain? (run : Run) (key : ChainKey) : Option CalendarChain :=
  (run.chains.find? (·.1 = key)).map Prod.snd

/-- The run cancelled at once. -/
def cancel (run : Run) : Run := { run with cancelled := true }

/-- The run with a cancellation set, unless an earlier one is. -/
def cancelAfter (run : Run) (span : Duration) : Run :=
  let moment := run.now + span
  { run with cancelAt := some (run.cancelAt.elim moment (min moment)) }

/-- The moment of the cancellation, if it comes before another moment. -/
def cancelledBefore? (run : Run) (moment : Nat) : Option Nat :=
  run.cancelAt.filter (· < moment)

/-- The run after waiting for a moment. -/
def waitUntil (run : Run) (moment : Nat) : Run := { run with now := max run.now moment }

/-- The run with a chain kept. -/
def keep (run : Run) (key : ChainKey) (chain : CalendarChain) : Run :=
  { run with chains := run.chains ++ [(key, chain)] }

end Run

/-- A request under way. -/
structure Flight where
  key : ChainKey
  /-- When it is answered or given up. -/
  due : Nat
  /-- What it will then have come to. -/
  result : Except ExtensionFailure CalendarChain

/-- The first part of a call. -/
inductive Admission where
  /-- The run is cancelled. -/
  | refused
  /-- Decided at once. -/
  | ready (result : Except ExtensionFailure CalendarChain)
  /-- A request is under way. -/
  | underWay (flight : Flight)

/-- What a call comes to: a chain or a failure, unless it ends the verification. -/
abbrev ChainOutcome := Except VerificationError (Except ExtensionFailure CalendarChain)

namespace Context

/-- The service, if there is one and it may be asked. -/
def permittedExtender (ctx : Context) : Except ExtensionFailure Extender :=
  match ctx.extender with
  | none => .error .notConfigured
  | some extender => if ctx.extendingAllowed then .ok extender else .error .notAllowed

/-- What a service's answer comes to within the time allowed. -/
def timed (ctx : Context) (answer : ExtensionAnswer) : Except ExtensionFailure CalendarChain :=
  if answer.delay ≤ ctx.timeout then answer.result.mapError .protocol
  else .error (.timedOut ctx.timeout)

/-- Sends a request off. -/
def launch (ctx : Context) (extender : Extender) (key : ChainKey) (run : Run) : Flight × Run :=
  let request := { aggregationTime := ctx.signature.aggregationTime, publicationTime := key }
  let (answer, log) := extender.ask run.log request
  ({ key, due := run.now + min answer.delay ctx.timeout, result := ctx.timed answer },
    { run with log })

/-- The first part of a call for the chain with a key. -/
def enquire (ctx : Context) (key : ChainKey) (run : Run) : Admission × Run :=
  if run.cancelled then (.refused, run)
  else
    match run.chain? key with
    | some chain => (.ready (.ok chain), run)
    | none =>
      match ctx.permittedExtender with
      | .error failure => (.ready (.error failure), run)
      | .ok extender =>
        let (flight, run) := ctx.launch extender key run
        (.underWay flight, run)

/-- A chain is of use only if it keeps the past that the signature has. -/
def judge (ctx : Context) (key : ChainKey) :
    Except ExtensionFailure CalendarChain → ChainOutcome
  | .error failure => .ok (.error failure)
  | .ok chain =>
    if ctx.signature.agreesWith chain then .ok (.ok chain)
    else .error (.inconsistentCalendarChain ctx.signature.aggregationTime key)

/-- The run once a flight has landed: a chain is kept, a failure is not. -/
def landed (flight : Flight) (run : Run) : Run :=
  let run := run.waitUntil flight.due
  match flight.result with
  | .ok chain => run.keep flight.key chain
  | .error _ => run

/-- The second part of a call: waits for a flight.  An answer is as good as a cancellation. -/
def settle (ctx : Context) (flight : Flight) (run : Run) : ChainOutcome × Run :=
  match run.cancelledBefore? flight.due with
  | some moment => (.error .cancelled, (run.waitUntil moment).cancel)
  | none => (ctx.judge flight.key flight.result, landed flight run)

/-- The chain with a key, from the service or from an earlier call. -/
def extendedChain (ctx : Context) (key : ChainKey) (run : Run) : ChainOutcome × Run :=
  match ctx.enquire key run with
  | (.refused, run) => (.error .cancelled, run)
  | (.ready result, run) => (ctx.judge key result, run)
  | (.underWay flight, run) => ctx.settle flight run

end Context

end Keyless
