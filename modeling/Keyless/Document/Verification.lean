/-
Verification results in JSON, and reports of them.
-/
import Keyless.Document.Imprint
import Keyless.Verification.Policy

namespace Keyless

/-- A code is written as its text. -/
def ErrorCode.toJson (code : ErrorCode) : Json := .string code.text

/-- A passed rule has no code. -/
def RuleResult.toJson (r : RuleResult) : Json :=
  .object ([("rule", .string r.rule.name), ("status", .string r.verdict.status)] ++
    Json.optionalField "code" ErrorCode.toJson r.code ++
    [("trust_anchor_missing", .bool r.isInconclusive)])

/-- The run of a policy with all results. -/
def PolicyOutcome.toJson (o : PolicyOutcome) : Json :=
  .object [("policy", .string o.policy), ("state", .string o.state.text),
    ("completed", .bool o.completed), ("rule_results", .list RuleResult.toJson o.results)]

/-- The final state and the runs of all policies. -/
def VerificationResult.toJson (r : VerificationResult) : Json :=
  .object [("state", .string r.state.text), ("policies", .list PolicyOutcome.toJson r.outcomes)]

/-! ### Reports -/

/-- The mark of a verdict: passed, failed, or skipped. -/
def Verdict.mark : Verdict → String
  | .ok => "[PASS]"
  | .fail => "[FAIL]"
  | .notApplicable | .anchorUnavailable => "[SKIP]"

/-- A result on one line, with code and explanation unless the rule passed. -/
def RuleResult.reportLine (r : RuleResult) : String :=
  let explained := r.code.elim "" fun code => " (" ++ code.text ++ ": " ++ code.message ++ ")"
  r.verdict.mark ++ " " ++ r.rule.name ++ explained

/-- The run of a policy, line by line. -/
def PolicyOutcome.reportLines (o : PolicyOutcome) : List String :=
  ("Policy " ++ o.policy ++ ": " ++ o.state.text) :: o.results.map RuleResult.reportLine

namespace VerificationResult

/-- All runs, and the verdict behind an empty line. -/
def reportLines (r : VerificationResult) : List String :=
  let verdict :=
    if r.isOk then ["Verification PASSED"] else ["Verification FAILED", r.summary]
  r.outcomes.flatMap PolicyOutcome.reportLines ++ "" :: verdict

/-- The report for a terminal. -/
def report (r : VerificationResult) : String := String.join (r.reportLines.map (· ++ "\n"))

/-- The report as JSON, every object with its keys in order. -/
def reportJson (r : VerificationResult) : Json :=
  Json.sorted (.object [("passed", .bool r.isOk),
    ("error_code", .orNull ErrorCode.toJson r.errorCode?), ("result", r.toJson)])

end VerificationResult

end Keyless
