/-
Looking into a signature: every chain with what it recomputes to.

A chain that cannot be folded shows its error, and the chains above it are
folded from the level that was reached before it, so that a damaged signature
can be looked into as well.
-/
import Keyless.Calendar.Fold
import Keyless.Calendar.Registration
import Keyless.Document.Imprint
import Keyless.Signature

namespace Keyless

/-- An aggregation chain and its output. -/
structure ChainSummary where
  chain : AggregationChain
  output : Except ChainError Node

/-- A calendar chain, its root, and the time that its shape encodes. -/
structure CalendarSummary where
  chain : CalendarChain
  root : Except ChainError Imprint
  registration : Option Time

/-- A signature with everything that can be recomputed from it. -/
structure Summary where
  signature : Signature
  chains : List ChainSummary
  calendar : Option CalendarSummary

/-- Folds chains one above the other, passing over those that cannot be folded. -/
def summarizeChains (level : UInt64) : List AggregationChain → List ChainSummary
  | [] => []
  | chain :: rest =>
    let output := chain.output level
    let reached :=
      match output with
      | .ok node => node.level
      | .error _ => level
    { chain, output } :: summarizeChains reached rest

/-- Recomputes a calendar chain. -/
def CalendarChain.summarize (chain : CalendarChain) : CalendarSummary :=
  { chain, root := chain.output, registration := chain.registrationTime.toOption }

/-- Recomputes all chains of a signature. -/
def Signature.summarize (s : Signature) : Summary :=
  { signature := s, chains := summarizeChains 0 s.chains
    calendar := s.calendarChain.map CalendarChain.summarize }

/-- A link on one line: the side, the sibling, and a correction that is not zero. -/
def Link.text (link : Link) : String :=
  let side :=
    match link.direction with
    | .left => "L "
    | .right => "R "
  let sibling :=
    match link.sibling with
    | .imprint hash => hash.text
    | .metadata identity => "metadata(" ++ identity.clientId ++ ")"
  let correction :=
    if link.levelCorrection = 0 then "" else " +" ++ toString link.levelCorrection.toNat
  side ++ sibling ++ correction

/-- A hash, or the error in its place. -/
def hashOrError : Except ChainError Imprint → String
  | .ok hash => hash.text
  | .error cause => "error: " ++ cause.message

namespace ChainSummary

/-- The output hash, or the error in its place. -/
def hashText (s : ChainSummary) : String := hashOrError (s.output.map Node.hash)

/-- The level of the output, if there is one. -/
def level? (s : ChainSummary) : Option UInt64 := (s.output.map Node.level).toOption

/-- The JSON form. -/
def toJson (s : ChainSummary) : Json :=
  .object [("algorithm", s.chain.algorithm.toJson),
    ("chain_index", .list jsonUInt64 s.chain.index),
    ("input_hash", s.chain.inputHash.toJson),
    ("links", .list (fun link => .string link.text) s.chain.links),
    ("output_hash", .string s.hashText),
    ("output_level", .orNull jsonUInt64 s.level?)]

/-- The lines about the chain at a position. -/
def lines (position : Nat) (s : ChainSummary) : List String :=
  let index := String.intercalate ", " (s.chain.index.map fun n => toString n.toNat)
  let level := s.level?.elim "" fun n => " (level " ++ toString n.toNat ++ ")"
  ["", "Aggregation chain " ++ toString position ++ " (" ++ s.chain.algorithm.name ++
      ", index [" ++ index ++ "])",
    "  Input:   " ++ s.chain.inputHash.text] ++
    s.chain.links.map (fun link => "    " ++ link.text) ++
    ["  Output:  " ++ s.hashText ++ level]

end ChainSummary

namespace CalendarSummary

/-- The JSON form. -/
def toJson (s : CalendarSummary) : Json :=
  .object [("publication_time", .string s.chain.publicationTime.stamp),
    ("link_count", .nat s.chain.links.length),
    ("root_hash", .string (hashOrError s.root)),
    ("registration_time", .orNull (fun t => .string t.stamp) s.registration)]

/-- The lines about the chain. -/
def lines (s : CalendarSummary) : List String :=
  ["", "Calendar chain (" ++ toString s.chain.links.length ++ " links)",
    "  Publication time:  " ++ s.chain.publicationTime.text,
    "  Registration time: " ++ s.registration.elim "malformed chain shape" Time.text,
    "  Root:              " ++ hashOrError s.root]

end CalendarSummary

/-- What stands behind a signature's calendar root. -/
def Signature.recordText (s : Signature) : String :=
  if s.publicationRecord.isSome then "publication"
  else if s.authenticationRecord.isSome then "calendar authentication"
  else "none"

namespace Summary

/-- The JSON form, with times as timestamps. -/
def toJson (s : Summary) : Json :=
  .object [("input_hash", s.signature.inputHash.toJson),
    ("aggregation_time", .string s.signature.aggregationTime.stamp),
    ("chains", .list ChainSummary.toJson s.chains),
    ("calendar", .orNull CalendarSummary.toJson s.calendar),
    ("record", .string s.signature.recordText),
    ("has_rfc3161_record", .bool s.signature.timestampRecord.isSome)]

/-- The lines about chains from a position on. -/
def chainLines : Nat → List ChainSummary → List String
  | _, [] => []
  | position, chain :: rest => chain.lines position ++ chainLines (position + 1) rest

/-- The summary for a terminal, line by line. -/
def lines (s : Summary) : List String :=
  ["Keyless Signature",
    "  Input hash:        " ++ s.signature.inputHash.text,
    "  Aggregation time:  " ++ s.signature.aggregationTime.text,
    "  Record:            " ++ s.signature.recordText] ++
    (if s.signature.timestampRecord.isSome then ["  Legacy RFC 3161 record present"] else []) ++
    chainLines 0 s.chains ++ (s.calendar.elim [] CalendarSummary.lines)

/-- The summary for a terminal. -/
def text (s : Summary) : String := String.join (s.lines.map (· ++ "\n"))

end Summary

end Keyless
