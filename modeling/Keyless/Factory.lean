/-
Making signatures that have passed a policy.

A factory puts a signature together, verifies it, and hands it out only if the
policy accepts it.  What it verifies it as: with `create`, a signature for its
own input; with `prepend`, one for the new chain's input; with `extend`, one for
the input before extending.
-/
import Keyless.Signature.Reshaping
import Keyless.Verification.BuiltIn

namespace Keyless

/-- A policy and what verification may use. -/
structure Factory where
  policies : PolicyChain
  extender : Option Extender
  publications : Option PublicationsLookup
  extendingAllowed : Bool
  timeout : Duration

/-- Why a factory hands out nothing. -/
inductive FactoryError where
  | chain (cause : ChainError)
  | verification (cause : VerificationError)
  | missingExtender
  /-- The signature was made, but the policy did not accept it. -/
  | rejected (signature : Signature) (result : VerificationResult)

/-- The wording of a factory error. -/
def FactoryError.message : FactoryError → String
  | .chain cause => cause.message
  | .verification cause => cause.message
  | .missingExtender => "signature factory has no extender configured"
  | .rejected _ result => "signature content is invalid: " ++ result.summary

namespace Factory

/-- A factory that needs and has nothing: internal consistency alone. -/
def internal : Factory :=
  { policies := .internal, extender := none, publications := none, extendingAllowed := false
    timeout := defaultTimeout }

/-- The context in which a signature for a document is verified. -/
def context (f : Factory) (signature : Signature) (document : Imprint) (level : UInt64) :
    Context :=
  { signature, documentHash := some document, inputLevel := level, userPublication := none
    extendingAllowed := f.extendingAllowed, extender := f.extender, publications := f.publications
    timeout := f.timeout }

/-- Hands a signature out if it verifies as one for a document at a level. -/
def verified (f : Factory) (signature : Signature) (document : Imprint) (level : UInt64)
    (log : List ExtensionRequest) : Except FactoryError Signature × List ExtensionRequest :=
  match f.policies.verify (f.context signature document level) (Run.start log) with
  | (.error cause, run) => (.error (.verification cause), run.log)
  | (.ok result, run) =>
    (if result.isOk then .ok signature else .error (.rejected signature result), run.log)

/-- Verifies what was made, if it was made. -/
def checked (f : Factory) (made : Except ChainError Signature) (document : Imprint)
    (level : UInt64) (log : List ExtensionRequest) :
    Except FactoryError Signature × List ExtensionRequest :=
  match made with
  | .error cause => (.error (.chain cause), log)
  | .ok signature => f.verified signature document level log

/-- A signature from parts, for a document `level` levels above the leaves. -/
def create (f : Factory) (parts : SignatureParts) (level : UInt64)
    (log : List ExtensionRequest) : Except FactoryError Signature × List ExtensionRequest :=
  match Signature.ofParts parts with
  | .error cause => (.error (.chain cause), log)
  | .ok signature => f.checked (signature.applyLevel level) signature.inputHash level log

/-- A signature with a chain below it, for that chain's input. -/
def prepend (f : Factory) (signature : Signature) (chain : AggregationChain)
    (log : List ExtensionRequest) : Except FactoryError Signature × List ExtensionRequest :=
  f.checked (signature.prepend chain) chain.inputHash 0 log

/-- A signature extended to a publication. -/
def extend (f : Factory) (signature : Signature) (publication : PublicationRecord)
    (log : List ExtensionRequest) : Except FactoryError Signature × List ExtensionRequest :=
  match f.extender with
  | none => (.error .missingExtender, log)
  | some extender =>
    let (made, log) := signature.extend extender publication log
    f.checked made signature.inputHash 0 log

end Factory

end Keyless
