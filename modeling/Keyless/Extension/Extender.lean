/-
Extension services.

A service is asked for the calendar chain from an aggregation round to a
publication time, or to the newest calendar root.  It may answer the same
request differently each time, so an answer depends on the requests before it;
and it takes its time, which is part of the answer.
-/
import Keyless.Calendar.Chain
import Keyless.ChainError
import Keyless.Time.Gregorian

namespace Keyless

/-- A request to an extension service; without a publication time, for the newest root. -/
structure ExtensionRequest where
  aggregationTime : Time
  publicationTime : Option Time
deriving DecidableEq

/-- What a service answers, and how long it takes. -/
structure ExtensionAnswer where
  delay : Duration
  result : Except ProtocolError CalendarChain

/-- A service: the answer to a request, given the requests that came before it. -/
structure Extender where
  answer : List ExtensionRequest → ExtensionRequest → ExtensionAnswer

namespace Extender

/-- Asks, and writes the request down behind the earlier ones. -/
def ask (e : Extender) (log : List ExtensionRequest) (request : ExtensionRequest) :
    ExtensionAnswer × List ExtensionRequest :=
  (e.answer log request, log ++ [request])

/-- A service whose answer depends on nothing but the request. -/
def IsSteady (e : Extender) : Prop :=
  ∀ log log' request, e.answer log request = e.answer log' request

end Extender

end Keyless
