/-
The JSON forms of algorithms, imprints and times.
-/
import Keyless.Imprint.Reading
import Keyless.Json.Record

namespace Keyless

/-- Octets are written in hexadecimal. -/
def Bytes.toJson (octets : Bytes) : Json := .string (Hex.encode octets)

/-- A time is written as its seconds. -/
def Time.toJson (time : Time) : Json := .int time.seconds

/-- A 64-bit number. -/
def jsonUInt64 (value : UInt64) : Json := .nat value.toNat

/-- An algorithm is written as its name. -/
def HashAlgorithm.toJson (algorithm : HashAlgorithm) : Json := .string algorithm.name

/-- Reads the exact name of an algorithm. -/
def HashAlgorithm.ofJson : Json → Except DecodeError HashAlgorithm :=
  Json.toName (HashAlgorithm.all.map fun a => (a.name, a))

/-- An imprint is written as its text. -/
def Imprint.toJson (imprint : Imprint) : Json := .string imprint.text

/-- Reads the text of an imprint. -/
def Imprint.ofJson (value : Json) : Except DecodeError Imprint := do
  let text ← value.toText
  match Imprint.ofText text with
  | .ok imprint => return imprint
  | .error cause => throw (.chain cause)

/-- Fields that are left out when absent. -/
def Json.optionalField {α : Type} (key : String) (form : α → Json) :
    Option α → List (String × Json)
  | none => []
  | some value => [(key, form value)]

end Keyless
