/-
Running commands.

A command reads files, and may write one.  How it does so is left open: the
commands are written over any monad with access to files, so they can be run on
a disk as well as on a table of file contents.
-/
import Keyless.Command
import Keyless.Command.Access
import Keyless.Document.Signature
import Keyless.Document.Store
import Keyless.Document.Verification
import Keyless.Factory
import Keyless.Inspection
import Keyless.Json.Printer
import Keyless.Settings

namespace Keyless

/-- The files that a command must be given. -/
inductive InputFile where
  | signature
  | chain
deriving DecidableEq, Repr

/-- The word for an input file. -/
def InputFile.name : InputFile → String
  | .signature => "signature"
  | .chain => "chain"

/-- Why a command comes to nothing. -/
inductive CommandError where
  | settings (cause : SettingsError)
  | unreadable (file : InputFile) (path reason : String)
  | invalid (file : InputFile) (path : String) (fault : DecodeError)
  | unwritable (path reason : String)
  | illegalPublicationTime (seconds : Int)
  /-- No publication is late enough for the signature. -/
  | noPublication (aggregationTime : Time)
  | chain (cause : ChainError)
  | protocol (cause : ProtocolError)
  | verification (cause : VerificationError)
  | factory (cause : FactoryError)

/-- The wording of an error. -/
def CommandError.message : CommandError → String
  | .settings cause => cause.message
  | .unreadable file path reason => "cannot read " ++ file.name ++ " `" ++ path ++ "`: " ++ reason
  | .invalid file path fault =>
    "invalid " ++ file.name ++ " `" ++ path ++ "`: " ++ fault.message
  | .unwritable path reason => "cannot write `" ++ path ++ "`: " ++ reason
  | .illegalPublicationTime seconds =>
    "user publication time " ++ toString seconds ++ " is out of range"
  | .noPublication aggregationTime =>
    "no publication at or after aggregation time " ++ aggregationTime.text
  | .chain cause => cause.message
  | .protocol cause => cause.message
  | .verification cause => cause.message
  | .factory cause => cause.message

/-- How a command ends, with what it prints. -/
inductive Ending where
  | done (output : String)
  /-- A signature was not verified. -/
  | rejected (output : String)
  | failed (cause : CommandError)

namespace Ending

/-- What is printed to the terminal. -/
def output : Ending → String
  | .done text | .rejected text => text
  | .failed _ => ""

/-- The exit code. -/
def exitCode : Ending → Nat
  | .done _ => 0
  | .rejected _ | .failed _ => 1

end Ending

namespace Command

variable {m : Type → Type} [Monad m]

/-! ### Reading and writing -/

/-- Lifts what a step comes to. -/
def orFail {α ε : Type} (cause : ε → CommandError) : Except ε α → ExceptT CommandError m α
  | .ok value => pure value
  | .error fault => throw (cause fault)

/-- Reads an input file. -/
def readInput {α : Type} (files : FileAccess m) (file : InputFile)
    (decode : Json → Except DecodeError α) (path : String) : ExceptT CommandError m α := do
  let text ← orFail (.unreadable file path) (← files.read path)
  orFail (.invalid file path) (Json.readAs decode text)

/-- Reads a signature. -/
def readSignature (files : FileAccess m) (path : String) : ExceptT CommandError m Signature :=
  readInput files .signature Signature.ofJson path

/-- Reads a publications file or a calendar archive. -/
def readSource {α : Type} (files : FileAccess m) (ofText : String → Except VerificationError α)
    (path : String) : ExceptT CommandError m α := do
  let text ← orFail (fun reason => .verification (.io reason)) (← files.read path)
  orFail .verification (ofText text)

/-- Reads a publications file or a calendar archive if there is a path. -/
def readSource? {α : Type} (files : FileAccess m) (ofText : String → Except VerificationError α) :
    Option String → ExceptT CommandError m (Option α)
  | none => pure none
  | some path => some <$> readSource files ofText path

/-- Reads a settings file. -/
def readSettings (files : FileAccess m) (path : String) : ExceptT CommandError m Settings := do
  let text ← orFail (fun reason => .settings (.unreadable path reason)) (← files.read path)
  match Settings.ofFile? text with
  | some settings => return settings
  | none => throw (.settings (.malformed path))

/-- The settings of the given file, or else of the one in the standard places. -/
def loadSettings (files : FileAccess m) (given : Option String) :
    ExceptT CommandError m Settings := do
  match given.or (← files.standardSettings) with
  | some path => readSettings files path
  | none => return .standard

/-- Writes a signature to a file, or prints it. -/
def writeSignature (files : FileAccess m) (signature : Signature) :
    Option String → ExceptT CommandError m Ending
  | none => return .done (signature.toJson.pretty ++ "\n")
  | some path => do
    orFail (.unwritable path) (← files.write path (signature.toJson.pretty ++ "\n"))
    return .done ""

/-! ### Verifying -/

/-- The policy with a name, or the one in the settings. -/
def choosePolicy (settings : Settings) : Option String → Except CommandError PolicyKind
  | none => .ok settings.policy
  | some name =>
    match PolicyKind.ofName? name with
    | some kind => .ok kind
    | none => .error (.settings (.unknownPolicy name))

/-- The user's publication, whose time must be legal. -/
def trustedPublication : Option (Int × Imprint) → Except CommandError (Option PublicationData)
  | none => .ok none
  | some (seconds, publishedHash) =>
    match Time.ofSeconds? seconds with
    | some publicationTime => .ok (some { publicationTime, publishedHash })
    | none => .error (.illegalPublicationTime seconds)

/-- Verifies a signature.  A calendar on the command line may be asked in any case. -/
def verification (files : FileAccess m) (options : VerifyOptions) :
    ExceptT CommandError m VerificationResult := do
  let settings ← loadSettings files options.settings
  let policy ← orFail id (choosePolicy settings options.policy)
  let signature ← readSignature files options.signature
  let publications ← readSource? files PublicationStore.ofText
    (options.publications.or settings.publicationsFile)
  let archive ← readSource? files Archive.ofText (options.calendar.or settings.calendarArchive)
  let userPublication ← orFail id (trustedPublication options.userPublication)
  let ctx : Context :=
    { signature, documentHash := options.documentHash, inputLevel := options.inputLevel
      userPublication
      extendingAllowed := settings.extendingAllowed || options.calendar.isSome
      extender := archive.map Archive.extender
      publications := publications.map PublicationStore.lookup
      timeout := settings.timeout }
  orFail .verification (policy.chain.verify ctx (Run.start [])).1

/-- Verifies a signature and reports. -/
def verifySignature (files : FileAccess m) (options : VerifyOptions) :
    ExceptT CommandError m Ending := do
  let result ← verification files options
  let report := if options.json then result.reportJson.pretty ++ "\n" else result.report
  return if result.isOk then .done report else .rejected report

/-! ### Inspecting, prepending and extending -/

/-- Shows what is in a signature. -/
def inspectSignature (files : FileAccess m) (path : String) (json : Bool) :
    ExceptT CommandError m Ending := do
  let summary := (← readSignature files path).summarize
  return .done (if json then summary.toJson.pretty ++ "\n" else summary.text)

/-- Puts a chain below a signature. -/
def prependChain (files : FileAccess m) (path chainPath : String) (output : Option String) :
    ExceptT CommandError m Ending := do
  let signature ← readSignature files path
  let chain ← readInput files .chain AggregationChain.ofJson chainPath
  let prepended ← orFail .factory (Factory.internal.prepend signature chain []).1
  writeSignature files prepended output

/-- The newest calendar root that a service knows, as a publication; with the requests made. -/
def newestPublication (extender : Extender) (signature : Signature) :
    Except CommandError PublicationRecord × List ExtensionRequest :=
  let (answer, log) := extender.ask []
    { aggregationTime := signature.aggregationTime, publicationTime := none }
  match answer.result with
  | .error cause => (.error (.protocol cause), log)
  | .ok newest =>
    match newest.output with
    | .error cause => (.error (.chain cause), log)
    | .ok publishedHash =>
      let publicationData := { publicationTime := newest.publicationTime, publishedHash }
      (.ok { publicationData, references := [], repositoryUris := [] }, log)

/-- The earliest publication that is not before a signature. -/
def earliestPublication (store : PublicationStore) (signature : Signature) :
    Except CommandError PublicationRecord :=
  match store.publicationFrom signature.aggregationTime with
  | some publication => .ok publication
  | none => .error (.noPublication signature.aggregationTime)

/-- Extends a signature to a publication from a file, or else to the newest calendar root. -/
def extendSignature (files : FileAccess m) (path calendar : String)
    (publications output : Option String) : ExceptT CommandError m Ending := do
  let signature ← readSignature files path
  let archive ← readSource files Archive.ofText calendar
  let store ← readSource? files PublicationStore.ofText publications
  let (publication, log) :=
    match store with
    | some store => (earliestPublication store signature, [])
    | none => newestPublication archive.extender signature
  let publication ← orFail id publication
  let factory := { Factory.internal with extender := some archive.extender }
  let extended ← orFail .factory (factory.extend signature publication log).1
  writeSignature files extended output

/-- Runs a command. -/
def run (files : FileAccess m) (command : Command) : m Ending := do
  let attempt :=
    match command with
    | .verify options => verifySignature files options
    | .inspect path json => inspectSignature files path json
    | .prepend path chain output => prependChain files path chain output
    | .extend path calendar publications output =>
      extendSignature files path calendar publications output
  match ← attempt.run with
  | .ok ending => return ending
  | .error cause => return .failed cause

end Command

end Keyless
