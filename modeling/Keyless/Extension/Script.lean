/-
Extension services whose answers are laid down beforehand.

A calendar archive answers from a fixed list of chains.  A script gives its first
answer to the first request, and so on, whatever was asked; the last one repeats.
-/
import Keyless.Extension.Extender

namespace Keyless

/-- A list of calendar chains, in any order. -/
structure Archive where
  chains : List CalendarChain
  delay : Duration

namespace Archive

/-- The chain with the latest publication time, the last one of several. -/
def latest? : List CalendarChain → Option CalendarChain
  | [] => none
  | chain :: rest =>
    match latest? rest with
    | none => some chain
    | some other => if other.publicationTime < chain.publicationTime then some chain else some other

/-- The chain for a request: the first exact one, or the latest for a request for the newest. -/
def find? (archive : Archive) (request : ExtensionRequest) : Option CalendarChain :=
  let candidates := archive.chains.filter (·.aggregationTime = request.aggregationTime)
  match request.publicationTime with
  | some time => candidates.find? (·.publicationTime = time)
  | none => latest? candidates

/-- The archive as a service. -/
def extender (archive : Archive) : Extender where
  answer _ request :=
    { delay := archive.delay
      result :=
        match archive.find? request with
        | some chain => .ok chain
        | none => .error (.notFound request.aggregationTime request.publicationTime) }

end Archive

/-- A list of answers in the order in which they are given. -/
structure Script where
  first : Except ProtocolError CalendarChain
  rest : List (Except ProtocolError CalendarChain)
  delay : Duration

namespace Script

/-- The answer to the request after `earlier` others. -/
def answerAt (script : Script) (earlier : Nat) : Except ProtocolError CalendarChain :=
  let answers := script.first :: script.rest
  (answers[earlier]?).getD (answers.getLast (by simp [answers]))

/-- The script as a service. -/
def extender (script : Script) : Extender where
  answer log _ := { delay := script.delay, result := script.answerAt log.length }

end Script

end Keyless
