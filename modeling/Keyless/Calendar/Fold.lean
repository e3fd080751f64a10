/-
Folding calendar chains.

A step hashes the two imprints in the order of the tree and the octet 0xFF,
which no aggregation level below 255 can be mistaken for.
-/
import Keyless.Calendar.Chain
import Keyless.Imprint.Reading

namespace Keyless

/-- The octet that ends what every calendar step hashes. -/
def calendarLevel : UInt8 := 0xFF

/-- What the step hashes. -/
def CalendarLink.message (link : CalendarLink) (running : Imprint) : Bytes :=
  match link.direction with
  | .left => running.octets ++ link.sibling.octets ++ [calendarLevel]
  | .right => link.sibling.octets ++ running.octets ++ [calendarLevel]

/-- The hash that a link leads to. -/
def CalendarLink.above (link : CalendarLink) (running : Imprint) : Except ChainError Imprint :=
  link.sibling.algorithm.hash (link.message running)

/-- Climbs calendar links from a hash. -/
def climbCalendar : Imprint → List CalendarLink → Except ChainError Imprint
  | running, [] => .ok running
  | running, link :: rest => do
    let next ← link.above running
    climbCalendar next rest

/-- The calendar root that the chain leads to. -/
def CalendarChain.output (chain : CalendarChain) : Except ChainError Imprint :=
  climbCalendar chain.inputHash chain.links

end Keyless
