/-
Access to files, and why it is refused.
-/

namespace Keyless

/-- Access to files.  A refusal comes with its reason. -/
structure FileAccess (m : Type → Type) where
  read : (path : String) → m (Except String String)
  write : (path content : String) → m (Except String Unit)
  /-- The path of the settings file in the standard places, if there is one. -/
  standardSettings : m (Option String)

namespace FileAccess

/-- The system's words for the errors that files are likely to meet, by their numbers. -/
def systemWords? : Nat → Option String
  | 1 => some "Operation not permitted"
  | 2 => some "No such file or directory"
  | 13 => some "Permission denied"
  | 20 => some "Not a directory"
  | 21 => some "Is a directory"
  | 22 => some "Invalid argument"
  | 28 => some "No space left on device"
  | 30 => some "Read-only file system"
  | 36 => some "File name too long"
  | 40 => some "Too many levels of symbolic links"
  | _ => none

/-- The reason behind a numbered error; `details` stand in for words that are not known. -/
def systemReason (number : Nat) (details : String) : String :=
  (systemWords? number).getD details ++ " (os error " ++ toString number ++ ")"

/-- The reason against a path that holds a zero, about which the system is not asked. -/
def zeroReason : String := "file name contained an unexpected NUL byte"

/-- Whether a path holds a zero. -/
def holdsZero (path : String) : Bool := path.toList.any (·.toNat = 0)

end FileAccess

end Keyless
