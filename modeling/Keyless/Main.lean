/-
The program: command lines on the files of a disk.
-/
import Keyless.Command.Run
import Keyless.Command.Usage

namespace Keyless.Disk

/-- The reason behind a numbered error.  Some calls hand the number on with its sign turned. -/
def numberedReason (code : UInt32) (details : String) : String :=
  FileAccess.systemReason (if code < 0x80000000 then code.toNat else (0 - code).toNat) details

/-- The system's reason behind an error. -/
def reason : IO.Error → String
  | .alreadyExists _ code details | .otherError code details | .resourceBusy code details
  | .resourceVanished code details | .unsupportedOperation code details
  | .hardwareFault code details | .unsatisfiedConstraints code details
  | .illegalOperation code details | .protocolError code details | .timeExpired code details
  | .interrupted _ code details | .noFileOrDirectory _ code details
  | .invalidArgument _ code details | .permissionDenied _ code details
  | .resourceExhausted _ code details | .inappropriateType _ code details
  | .noSuchThing _ code details => numberedReason code details
  | .unexpectedEof => "unexpected end of file"
  | .userError details => details

/-- Reads a text file. -/
def read (path : String) : IO (Except String String) := do
  if FileAccess.holdsZero path then return .error FileAccess.zeroReason
  try
    match String.fromUTF8? (← IO.FS.readBinFile path) with
    | some text => return .ok text
    | none => return .error "stream did not contain valid UTF-8"
  catch error => return .error (reason error)

/-- Writes a text file. -/
def write (path content : String) : IO (Except String Unit) := do
  if FileAccess.holdsZero path then return .error FileAccess.zeroReason
  try
    IO.FS.writeFile path content
    return .ok ()
  catch error => return .error (reason error)

/-- The directory for settings files of the user. -/
def settingsHome : IO (Option String) := do
  match ← IO.getEnv "XDG_CONFIG_HOME", ← IO.getEnv "HOME" with
  | some home, other =>
    if home.startsWith "/" then return some home else return other.map (· ++ "/.config")
  | none, other => return other.map (· ++ "/.config")

/-- Whether a path leads to a file. -/
def isFile (path : String) : IO Bool := do
  try
    discard (IO.FS.readBinFile path)
    return true
  catch error =>
    match error with
    | .noFileOrDirectory .. | .inappropriateType .. => return false
    | _ => return true

/-- The first settings file that is there: the user's, or else the machine's. -/
def standardSettings : IO (Option String) := do
  let homes := (← settingsHome).toList ++ ["/etc"]
  (homes.map (· ++ "/keyless/config.toml")).findM? isFile

/-- The files of the disk. -/
def files : FileAccess IO := { read, write, standardSettings }

end Keyless.Disk

open Keyless in
/-- Runs the command that the words on the command line call for. -/
def main (words : List String) : IO UInt32 := do
  match Invocation.ofWords words with
  | .help =>
    IO.print usage
    return 0
  | .version command =>
    IO.print (versionText command)
    return 0
  | .misuse =>
    IO.eprint usage
    return 2
  | .run command =>
    let ending ← command.run Disk.files
    IO.print ending.output
    match ending with
    | .failed cause => IO.eprintln ("Error: " ++ cause.message)
    | .done _ | .rejected _ => pure ()
    return ending.exitCode.toUInt32
