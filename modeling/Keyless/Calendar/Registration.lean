/-
The second that the shape of a calendar chain encodes.

The calendar over the seconds 0 to `p` is a tree whose left part is complete and
as large as fits: with `b` the highest power of two in `p`, the left part has
the seconds 0 to `b - 1` and the right part the others.  Walking from the root, a
right link (the path is on the right) passes over the left part and goes on in
the rest; a left link goes down into a complete part.  The walk must end at a
single second.
-/
import Keyless.Calendar.Chain

namespace Keyless

/-- Where a walk from the root of the calendar stands. -/
structure Descent where
  /-- The part below here has the seconds `passed` to `passed + remaining`. -/
  remaining : Nat
  /-- How many seconds lie to the left of the part. -/
  passed : Nat
deriving DecidableEq, Repr

namespace Descent

/-- The highest power of two that is not above a positive number. -/
def highBit (n : Nat) : Nat := 1 <<< n.log2

/-- One step down.  The part must have more than one second. -/
def step (d : Descent) : Direction → Descent
  | .left => { d with remaining := highBit d.remaining - 1 }
  | .right =>
    { remaining := d.remaining - highBit d.remaining, passed := d.passed + highBit d.remaining }

/-- Walks down along directions, root first, to a single second. -/
def walk : Descent → List Direction → Except ComputationFault Nat
  | d, [] => if d.remaining = 0 then .ok d.passed else .error .calendarTooShort
  | d, direction :: rest =>
    if d.remaining = 0 then .error .calendarTooLong else walk (d.step direction) rest

end Descent

/-- The second at which directions, leaf first, arrive in the calendar up to a time. -/
def registeredSecond (publicationTime : Time) (directions : List Direction) :
    Except ComputationFault Time :=
  if publicationTime.seconds < 0 then .error .publicationBeforeEpoch
  else do
    let start : Descent := { remaining := publicationTime.seconds.toNat, passed := 0 }
    let second ← start.walk directions.reverse
    match Time.ofSeconds? second with
    | some time => .ok time
    | none => .error .registrationOutOfRange

/-- The second that the chain's shape encodes. -/
def CalendarChain.registrationTime (chain : CalendarChain) : Except ChainError Time :=
  match registeredSecond chain.publicationTime chain.directions with
  | .ok time => .ok time
  | .error fault => .error (.computation fault)

end Keyless
