/-
The settings of a verifier.
-/
import Keyless.Settings.Reader
import Keyless.Verification.BuiltIn

namespace Keyless

/-- What a settings file can set. -/
structure Settings where
  extendingAllowed : Bool
  timeoutSeconds : Nat
  policy : PolicyKind
  publicationsFile : Option String
  calendarArchive : Option String
deriving DecidableEq

namespace Settings

/-- The settings without a file. -/
def standard : Settings :=
  { extendingAllowed := false, timeoutSeconds := 10, policy := .standard
    publicationsFile := none, calendarArchive := none }

/-- The time allowed for one extension request. -/
def timeout (s : Settings) : Duration := Duration.ofSeconds s.timeoutSeconds

/-- The name of a policy: a text, or the one key of a table that leads to nothing. -/
def policyName? : SettingItem → Option String
  | .value (.text name) => some name
  | .table _ [(name, .table _ [])] | .table _ [(name, .value .emptyArray)] => some name
  | _ => none

/-- The settings with the policy of a name. -/
def setPolicy? (s : Settings) (name : String) : Option Settings :=
  (PolicyKind.ofName? name).map fun policy => { s with policy }

/-- The settings with one of them set, if the key is known and what it leads to fits it. -/
def set? (s : Settings) : String × SettingItem → Option Settings
  | ("extending_allowed", .value (.flag value)) => some { s with extendingAllowed := value }
  | ("extension_timeout_secs", .value (.number value)) =>
    if 0 ≤ value then some { s with timeoutSeconds := value.toNat } else none
  | ("policy", item) => do s.setPolicy? (← policyName? item)
  | ("publications_file", .value (.text path)) => some { s with publicationsFile := some path }
  | ("calendar_archive", .value (.text path)) => some { s with calendarArchive := some path }
  | _ => none

/-- The settings of a file; what it does not set stays as it is without a file. -/
def ofFile? (file : String) : Option Settings := do
  let table ← SettingsFile.read file
  table.foldlM set? standard

end Settings

/-- Why there are no settings. -/
inductive SettingsError where
  | unreadable (path reason : String)
  | malformed (path : String)
  | unknownPolicy (name : String)
deriving DecidableEq

/-- The wording of a settings error. -/
def SettingsError.message : SettingsError → String
  | .unreadable path reason => "cannot read config `" ++ path ++ "`: " ++ reason
  | .malformed path => "invalid config `" ++ path ++ "`: TOML parse error"
  | .unknownPolicy name => "unknown policy `" ++ name ++ "`"

end Keyless
