/-
What the program says about itself.
-/

namespace Keyless

/-- The version of the program. -/
def programVersion : String := "0.1.0"

/-- The line that tells the version, under the program's name or a command's. -/
def versionText (command : Option String) : String :=
  "keyless" ++ command.elim "" ("-" ++ ·) ++ " " ++ programVersion ++ "\n"

/-- The command lines in brief. -/
def usage : String := String.join (List.map (· ++ "\n") [
  "Keyless signature toolkit.",
  "",
  "Usage: keyless [-v] [--json-logs] <COMMAND>",
  "",
  "  verify <SIGNATURE> [--policy <NAME>] [--document-hash <IMPRINT>] [--input-level <LEVEL>]",
  "         [--publications <PATH>] [--calendar <PATH>] [--config <PATH>] [--json]",
  "         [--user-publication-time <SECS> --user-publication-hash <IMPRINT>]",
  "  inspect <SIGNATURE> [--json]",
  "  prepend <SIGNATURE> <CHAIN> [-o <PATH>]",
  "  extend <SIGNATURE> --calendar <PATH> [--publications <PATH>] [-o <PATH>]",
  "",
  "The policies are internal, key-based, publications-file, user-publication,",
  "calendar-based and default."])

end Keyless
