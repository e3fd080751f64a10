/-
Calendar chains: paths from the root of an aggregation round to a later root of
the calendar, the tree over all seconds.
-/
import Keyless.Aggregation.Chain

namespace Keyless

/-- One step of a calendar chain.  The sibling's algorithm is the step's. -/
structure CalendarLink where
  direction : Direction
  sibling : Imprint
deriving DecidableEq

/-- A path from one second's aggregation root to a calendar root. -/
structure CalendarChain where
  /-- The aggregation root that enters the calendar. -/
  inputHash : Imprint
  /-- The round that the input belongs to. -/
  aggregationTime : Time
  /-- The time of the calendar root that the chain leads to. -/
  publicationTime : Time
  /-- The links from the input to the root. -/
  links : List CalendarLink
deriving DecidableEq

namespace CalendarChain

/-- The siblings of the links in one direction, in their order. -/
def siblings (chain : CalendarChain) (direction : Direction) : List Imprint :=
  (chain.links.filter (·.direction = direction)).map CalendarLink.sibling

/-- The siblings to the right of the path. -/
def leftSiblings (chain : CalendarChain) : List Imprint := chain.siblings .left

/-- The siblings to the left of the path: the calendar's past, which never changes. -/
def rightSiblings (chain : CalendarChain) : List Imprint := chain.siblings .right

/-- Whether the newer chain begins with all the past that the older one has. -/
def keepsPast (older newer : CalendarChain) : Bool :=
  older.rightSiblings.isPrefixOf newer.rightSiblings

/-- The directions of the links, input first. -/
def directions (chain : CalendarChain) : List Direction :=
  chain.links.map CalendarLink.direction

end CalendarChain

end Keyless
