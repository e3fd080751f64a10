/-
Command lines: switches, their values, and operands.

A switch has a long name behind two dashes and perhaps a letter behind one.
Letters may share a dash.  The value of a switch follows behind an equals sign,
right behind the letter, or as the next word, which then must not look like a
switch.  Behind the word of two dashes every word is an operand.

A command line is gone through from left to right, and the first thing that
settles it does: a mistake, or the wish for help or the version.
-/
import Keyless.Imprint.Reading
import Keyless.Text

namespace Keyless.CommandLine

/-- What the value of a switch must be. -/
inductive ValueKind where
  | text
  | path
  | imprint
  | unsigned
  | signed
deriving DecidableEq

/-- Whether a value is of a kind.  A path is any text but the empty one. -/
def ValueKind.accepts (value : String) : ValueKind → Bool
  | .text => true
  | .path => value ≠ ""
  | .imprint => (Imprint.ofText value).toOption.isSome
  | .unsigned => (Text.toUInt64? value).isSome
  | .signed => (Text.toInt64Range? value).isSome

/-- A switch that a command knows. -/
structure Switch where
  name : String
  letter : Option Char
  /-- The kind of its value, if it takes one. -/
  value : Option ValueKind
  repeatable : Bool

/-- The switches of a command, and how many operands it takes at most. -/
structure Form where
  switches : List Switch
  operands : Nat

/-- A part of a command line. -/
inductive Piece where
  | flag (name : String)
  | valued (name value : String)
  | operand (text : String)
  /-- A word that is none of these. -/
  | mistake
deriving DecidableEq

/-! ### Words -/

/-- Whether a word looks like a switch.  A single dash is an operand. -/
def looksLikeSwitch (word : String) : Bool :=
  match word.toList with
  | '-' :: _ :: _ => true
  | _ => false

/-- What two dashes and a name stand for, and the switch that still needs its value. -/
def longSwitch (switches : List Switch) (body : List Char) : List Piece × Option String :=
  let name := String.ofList (body.takeWhile (· ≠ '='))
  match switches.find? (·.name = name), body.dropWhile (· ≠ '=') with
  | none, _ => ([.mistake], none)
  | some switch, attached =>
    match switch.value, attached with
    | none, [] => ([.flag name], none)
    | none, _ :: _ => ([.mistake], none)
    | some _, [] => ([], some name)
    | some _, _ :: value => ([.valued name (String.ofList value)], none)

/-- What letters behind one dash stand for, and the switch that still needs its value. -/
def letterSwitches (switches : List Switch) : List Char → List Piece × Option String
  | [] => ([], none)
  | letter :: rest =>
    match switches.find? (·.letter = some letter) with
    | none => ([.mistake], none)
    | some switch =>
      match switch.value, rest with
      | none, rest =>
        let (pieces, waiting) := letterSwitches switches rest
        (.flag switch.name :: pieces, waiting)
      | some _, [] => ([], some switch.name)
      | some _, '=' :: value => ([.valued switch.name (String.ofList value)], none)
      | some _, value => ([.valued switch.name (String.ofList value)], none)

/-- What a word stands for, and the switch that still needs its value. -/
def word (switches : List Switch) (text : String) : List Piece × Option String :=
  match text.toList with
  | '-' :: '-' :: body => longSwitch switches body
  | '-' :: letter :: rest => letterSwitches switches (letter :: rest)
  | _ => ([.operand text], none)

/-- The parts of a command line. -/
def pieces (switches : List Switch) : List String → List Piece
  | [] => []
  | text :: rest =>
    if text = "--" then rest.map .operand
    else
      match word switches text, rest with
      | (found, none), rest => found ++ pieces switches rest
      | (found, some name), value :: rest =>
        if looksLikeSwitch value then found ++ [.mistake]
        else found ++ .valued name value :: pieces switches rest
      | (found, some _), [] => found ++ [.mistake]

/-! ### Whole command lines -/

/-- What a command line gives to a command. -/
structure Given where
  flags : List String
  values : List (String × String)
  operands : List String
deriving DecidableEq

/-- The value given to a switch. -/
def Given.value? (given : Given) (name : String) : Option String :=
  (given.values.find? (·.1 = name)).map Prod.snd

/-- Whether a switch without value is given. -/
def Given.has (given : Given) (name : String) : Bool := given.flags.contains name

/-- What a command line comes to. -/
inductive Reading where
  | given (given : Given)
  | help
  | version
  | misuse
deriving DecidableEq

/-- The switches that every command knows. -/
def commonSwitches : List Switch := [
  { name := "help", letter := some 'h', value := none, repeatable := true },
  { name := "version", letter := some 'V', value := none, repeatable := true },
  { name := "verbose", letter := some 'v', value := none, repeatable := true },
  { name := "json-logs", letter := none, value := none, repeatable := false }]

/-- A form with the switches that every command knows. -/
def Form.withCommon (form : Form) : Form :=
  { form with switches := form.switches ++ commonSwitches }

/-- Whether a switch that may come only once has come before. -/
def isRepeated (form : Form) (name : String) (earlier : List String) : Bool :=
  earlier.contains name && form.switches.any fun switch => switch.name = name && !switch.repeatable

/-- Whether the value of a switch is of the kind it takes. -/
def isFitting (form : Form) (name value : String) : Bool :=
  form.switches.any fun switch => switch.name = name && switch.value.any (·.accepts value)

/-- Adds parts to what is given, up to the first that settles the command line. -/
def collect (form : Form) : Given → List Piece → Reading
  | given, [] => .given given
  | _, .mistake :: _ => .misuse
  | given, .flag name :: rest =>
    if name = "help" then .help
    else if name = "version" then .version
    else if isRepeated form name given.flags then .misuse
    else collect form { given with flags := given.flags ++ [name] } rest
  | given, .valued name value :: rest =>
    if isRepeated form name (given.values.map Prod.fst) then .misuse
    else if isFitting form name value then
      collect form { given with values := given.values ++ [(name, value)] } rest
    else .misuse
  | given, .operand text :: rest =>
    if text = "" || form.operands ≤ given.operands.length then .misuse
    else collect form { given with operands := given.operands ++ [text] } rest

/-- Nothing given. -/
def nothing : Given := { flags := [], values := [], operands := [] }

/-- Reads the words behind a command's name. -/
def read (form : Form) (words : List String) : Reading :=
  collect form.withCommon nothing (pieces form.withCommon.switches words)

end Keyless.CommandLine
