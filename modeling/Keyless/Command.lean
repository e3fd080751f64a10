/-
The commands, and how a command line calls for one.

Four commands verify a signature, show what is in it, put a chain below it, and
extend it to a publication.  Every file is named by its path.
-/
import Keyless.Command.Line

namespace Keyless

/-- What to verify, and by what. -/
structure VerifyOptions where
  signature : String
  /-- The name of a policy, in place of the one in the settings. -/
  policy : Option String
  documentHash : Option Imprint
  inputLevel : UInt64
  publications : Option String
  calendar : Option String
  /-- The time and the hash of a publication that the user trusts. -/
  userPublication : Option (Int × Imprint)
  settings : Option String
  json : Bool
deriving DecidableEq

/-- A command with what it was given. -/
inductive Command where
  | verify (options : VerifyOptions)
  | inspect (signature : String) (json : Bool)
  | prepend (signature chain : String) (output : Option String)
  | extend (signature calendar : String) (publications output : Option String)
deriving DecidableEq

/-- What a command line calls for. -/
inductive Invocation where
  | run (command : Command)
  | help
  /-- The version, under the name of a command if it was asked for behind that. -/
  | version (command : Option String)
  | misuse
deriving DecidableEq

namespace Command

open CommandLine

/-- A switch for a value, which may come once. -/
def valueSwitch (name : String) (kind : ValueKind) (letter : Option Char) : Switch :=
  { name, letter, value := some kind, repeatable := false }

/-- The switch that asks for JSON. -/
def jsonSwitch : Switch := { name := "json", letter := none, value := none, repeatable := false }

/-- The switch for the file to write. -/
def outputSwitch : Switch := valueSwitch "output" .path (some 'o')

/-- The command lines of `verify`. -/
def verifyForm : Form where
  switches := [
    valueSwitch "policy" .text none,
    valueSwitch "document-hash" .imprint none,
    valueSwitch "input-level" .unsigned none,
    valueSwitch "publications" .path none,
    valueSwitch "calendar" .path none,
    valueSwitch "user-publication-time" .signed none,
    valueSwitch "user-publication-hash" .imprint none,
    valueSwitch "config" .path none,
    jsonSwitch]
  operands := 1

/-- The command lines of `inspect`. -/
def inspectForm : Form := { switches := [jsonSwitch], operands := 1 }

/-- The command lines of `prepend`. -/
def prependForm : Form := { switches := [outputSwitch], operands := 2 }

/-- The command lines of `extend`. -/
def extendForm : Form where
  switches := [valueSwitch "calendar" .path none, valueSwitch "publications" .path none,
    outputSwitch]
  operands := 1

/-- The user's publication: its time and its hash, or neither. -/
def userPublication (given : Given) : Option (Option (Int × Imprint)) :=
  match given.value? "user-publication-time", given.value? "user-publication-hash" with
  | none, none => some none
  | some time, some hash => do
    let time ← Text.toInt64Range? time
    let hash ← (Imprint.ofText hash).toOption
    return some (time, hash)
  | _, _ => none

/-- What `verify` was given, if nothing is missing. -/
def ofVerify (given : Given) : Option Command := do
  let [signature] := given.operands | none
  let userPublication ← userPublication given
  return .verify
    { signature, policy := given.value? "policy"
      documentHash := (given.value? "document-hash").bind fun text => (Imprint.ofText text).toOption
      inputLevel := ((given.value? "input-level").bind Text.toUInt64?).getD 0
      publications := given.value? "publications", calendar := given.value? "calendar"
      userPublication, settings := given.value? "config", json := given.has "json" }

/-- What `inspect` was given, if nothing is missing. -/
def ofInspect (given : Given) : Option Command := do
  let [signature] := given.operands | none
  return .inspect signature (given.has "json")

/-- What `prepend` was given, if nothing is missing. -/
def ofPrepend (given : Given) : Option Command := do
  let [signature, chain] := given.operands | none
  return .prepend signature chain (given.value? "output")

/-- What `extend` was given, if nothing is missing. -/
def ofExtend (given : Given) : Option Command := do
  let [signature] := given.operands | none
  let calendar ← given.value? "calendar"
  return .extend signature calendar (given.value? "publications") (given.value? "output")

/-- The form of a command's line, and the command that it stands for. -/
def byName? : String → Option (Form × (Given → Option Command))
  | "verify" => some (verifyForm, ofVerify)
  | "inspect" => some (inspectForm, ofInspect)
  | "prepend" => some (prependForm, ofPrepend)
  | "extend" => some (extendForm, ofExtend)
  | _ => none

end Command

namespace Invocation

open CommandLine

/-- Reads the words behind the name of a command. -/
def ofCommand (name : String) (words : List String) : Invocation :=
  match Command.byName? name with
  | none => .misuse
  | some (form, command) =>
    match read form words with
    | .help => .help
    | .version => .version (some name)
    | .misuse => .misuse
    | .given given => ((command given).map run).getD .misuse

/-- Help is about all commands, or about the one that is named. -/
def ofHelp : List String → Invocation
  | [] => .help
  | [name] => if name = "help" || (Command.byName? name).isSome then .help else .misuse
  | _ => .misuse

/-- Reads words up to the name of a command; only common switches may stand before it. -/
def readFrom (given : Given) : List String → Invocation
  | [] => .misuse
  | text :: rest =>
    let form := { switches := commonSwitches, operands := 0 }
    match word commonSwitches text with
    | ([.operand name], _) => if name = "help" then ofHelp rest else ofCommand name rest
    | (pieces, _) =>
      match collect form given pieces with
      | .help => .help
      | .version => .version none
      | .misuse => .misuse
      | .given given => readFrom given rest

/-- Reads a whole command line. -/
def ofWords (words : List String) : Invocation := readFrom nothing words

end Invocation

end Keyless
