/-
Policies: ordered lists of rules, run one after another.

The first rule that fails ends a run.  An undecided rule does not, unless the
policy stops there.  What a run ends in follows from the results alone: failed
if a rule failed, or else inconclusive if a trust anchor was missing, or else ok.
-/
import Keyless.Verification.Evaluation

namespace Keyless

/-- What the run of a policy ends in. -/
inductive PolicyState where
  | ok
  | failed
  | inconclusive
deriving DecidableEq, Repr

/-- The word for a state in reports. -/
def PolicyState.text : PolicyState → String
  | .ok => "OK"
  | .failed => "FAILED"
  | .inconclusive => "INCONCLUSIVE"

/-- A named list of rules. -/
structure Policy where
  name : String
  rules : List Rule
  /-- Whether the first missing trust anchor ends a run. -/
  stopOnInconclusive : Bool
deriving DecidableEq

/-- The run of one policy. -/
structure PolicyOutcome where
  policy : String
  /-- Whether every rule was evaluated. -/
  completed : Bool
  /-- The results, in the order of the rules. -/
  results : List RuleResult
deriving DecidableEq

namespace PolicyOutcome

/-- What the run ended in. -/
def state (o : PolicyOutcome) : PolicyState :=
  if o.results.any RuleResult.isFail then .failed
  else if o.results.any RuleResult.isInconclusive then .inconclusive
  else .ok

/-- The result that the state rests on: the failure, or the first missing anchor. -/
def decisive? (o : PolicyOutcome) : Option RuleResult :=
  match o.state with
  | .failed => o.results.find? RuleResult.isFail
  | .inconclusive => o.results.find? RuleResult.isInconclusive
  | .ok => none

end PolicyOutcome

namespace Policy

/-- A policy that does not stop at a missing anchor. -/
def ofRules (name : String) (rules : List Rule) : Policy :=
  { name, rules, stopOnInconclusive := false }

/-- Whether a result ends a run. -/
def endsRun (stop : Bool) (result : RuleResult) : Bool :=
  result.isFail || (stop && result.isInconclusive)

/-- Evaluates rules up to the first that ends the run. -/
def evaluate (stop : Bool) (ctx : Context) :
    List Rule → Run → Except VerificationError (List RuleResult) × Run
  | [], run => (.ok [], run)
  | rule :: rest, run =>
    if run.cancelled then (.error .cancelled, run)
    else
      match rule.verify ctx run with
      | (.error fatal, run) => (.error fatal, run)
      | (.ok result, run) =>
        if endsRun stop result then (.ok [result], run)
        else
          match evaluate stop ctx rest run with
          | (.error fatal, run) => (.error fatal, run)
          | (.ok results, run) => (.ok (result :: results), run)

/-- Runs the policy. -/
def run (policy : Policy) (ctx : Context) (run : Run) :
    Except VerificationError PolicyOutcome × Run :=
  match evaluate policy.stopOnInconclusive ctx policy.rules run with
  | (.error fatal, run) => (.error fatal, run)
  | (.ok results, run) =>
    (.ok { policy := policy.name, completed := results.length = policy.rules.length, results },
      run)

end Policy

/-- A policy and those to fall back on, one after another, while the outcome is inconclusive. -/
structure PolicyChain where
  head : Policy
  fallbacks : List Policy
deriving DecidableEq

namespace PolicyChain

/-- All policies, in order. -/
def policies (chain : PolicyChain) : List Policy := chain.head :: chain.fallbacks

/-- A policy without fallback. -/
def single (policy : Policy) : PolicyChain := { head := policy, fallbacks := [] }

/-- A policy with a chain to fall back on. -/
def withFallback (policy : Policy) (fallback : PolicyChain) : PolicyChain :=
  { head := policy, fallbacks := fallback.policies }

end PolicyChain

/-- A verification that came to a verdict: the outcomes of the policies that were run. -/
structure VerificationResult where
  /-- The outcomes before the last, all of them inconclusive. -/
  earlier : List PolicyOutcome
  last : PolicyOutcome
deriving DecidableEq

namespace VerificationResult

/-- The outcomes, in order. -/
def outcomes (r : VerificationResult) : List PolicyOutcome := r.earlier ++ [r.last]

/-- The final state. -/
def state (r : VerificationResult) : PolicyState := r.last.state

/-- Whether the signature was verified. -/
def isOk (r : VerificationResult) : Bool := r.state = .ok

/-- The result that the final state rests on. -/
def decisive? (r : VerificationResult) : Option RuleResult := r.last.decisive?

/-- The code of that result. -/
def errorCode? (r : VerificationResult) : Option ErrorCode := r.decisive?.bind RuleResult.code

/-- State, policy, and the rule that decided with its code, in one line. -/
def summary (r : VerificationResult) : String :=
  let decided :=
    match r.decisive? with
    | none => ""
    | some result =>
      ": " ++ result.rule.name ++
        match result.code with
        | none => ""
        | some code => " " ++ code.text ++ " " ++ code.message
  r.state.text ++ " (" ++ r.last.policy ++ ")" ++ decided

end VerificationResult

namespace PolicyChain

/-- Runs a policy, and the fallbacks while the outcome is inconclusive. -/
def verifyFrom (ctx : Context) :
    Policy → List Policy → Run → Except VerificationError VerificationResult × Run
  | policy, fallbacks, run =>
    match policy.run ctx run with
    | (.error fatal, run) => (.error fatal, run)
    | (.ok outcome, run) =>
      match outcome.state, fallbacks with
      | .inconclusive, next :: others =>
        match verifyFrom ctx next others run with
        | (.error fatal, run) => (.error fatal, run)
        | (.ok result, run) => (.ok { result with earlier := outcome :: result.earlier }, run)
      | _, _ => (.ok { earlier := [], last := outcome }, run)
termination_by _ fallbacks => fallbacks.length

/-- Verifies what a context holds. -/
def verify (chain : PolicyChain) (ctx : Context) (run : Run) :
    Except VerificationError VerificationResult × Run :=
  verifyFrom ctx chain.head chain.fallbacks run

end PolicyChain

end Keyless
