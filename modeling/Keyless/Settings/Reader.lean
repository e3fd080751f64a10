/-
Settings files: the part of TOML that settings use.

A file is a table, written line by line.  Values are truth values, integers,
strings of any of the four kinds, empty arrays, and tables inside a line; keys may
have quotes, points may lead through tables, and headings open further tables.  A
value of any other kind cannot be a setting, so reading refuses it without looking
further.
-/
import Keyless.Json.Text
import Keyless.Settings.Table

namespace Keyless

/-! Every reading function takes a text, and gives what it reads and the text behind that. -/

namespace SettingsFile

/-- Blanks inside a line. -/
def skipBlanks (text : List Char) : List Char := text.dropWhile fun c => c = ' ' || c = '\t'

/-- Characters that no part of a file may hold. -/
def isForbidden (c : Char) : Bool := (c.toNat < 32 && c != '\t') || c.toNat = 127

/-- What follows the end of a line, which is a line feed with or without a carriage return. -/
def lineEnd? : List Char → Option (List Char)
  | '\n' :: rest => some rest
  | '\r' :: '\n' :: rest => some rest
  | _ => none

/-! ### Strings -/

/-- The character with a code in hexadecimal digits, if it is one. -/
def codePoint? (digits : List Char) : Option Char := do
  let values ← digits.mapM Json.hexQuad?.digit?
  let code := values.foldl (fun n d => 16 * n + d) 0
  if h : code.isValidChar then some (Char.ofNatAux code h) else none

/-- What an escape behind a backslash stands for. -/
def escape? : List Char → Option (Char × List Char)
  | 'b' :: rest => some (Char.ofNat 8, rest)
  | 't' :: rest => some ('\t', rest)
  | 'n' :: rest => some ('\n', rest)
  | 'f' :: rest => some (Char.ofNat 12, rest)
  | 'r' :: rest => some ('\r', rest)
  | '"' :: rest => some ('"', rest)
  | '\\' :: rest => some ('\\', rest)
  | 'u' :: rest => coded 4 rest
  | 'U' :: rest => coded 8 rest
  | _ => none
where
  /-- A code in exactly `n` digits. -/
  coded (n : Nat) (rest : List Char) : Option (Char × List Char) :=
    if (rest.take n).length = n then (codePoint? (rest.take n)).map (·, rest.drop n) else none

/-- A string on one line with escapes, behind its quote; `fuel` is at least the text's length. -/
def basic : Nat → List Char → Option (List Char × List Char)
  | 0, _ => none
  | _ + 1, [] => none
  | fuel + 1, c :: rest =>
    if c = '"' then some ([], rest)
    else if c = '\\' then do
      let (c, rest) ← escape? rest
      let (others, rest) ← basic fuel rest
      return (c :: others, rest)
    else if isForbidden c then none
    else do
      let (others, rest) ← basic fuel rest
      return (c :: others, rest)

/-- A string on one line without escapes, behind its quote. -/
def literal (quote : Char) : List Char → Option (List Char × List Char)
  | [] => none
  | c :: rest =>
    if c = quote then some ([], rest)
    else if isForbidden c then none
    else do
      let (others, rest) ← literal quote rest
      return (c :: others, rest)

/-- Blanks and ends of lines. -/
def skipLines : Nat → List Char → List Char
  | 0, text => text
  | fuel + 1, text =>
    let text := skipBlanks text
    match lineEnd? text with
    | some rest => skipLines fuel rest
    | none => text

/--
A string over several lines, behind its three quotes.  Up to two quotes may stand
right before the three that end it.  With `escapes`, a backslash at the end of a
line takes the blanks up to the next text away.
-/
def multiline (quote : Char) (escapes : Bool) : Nat → List Char → Option (List Char × List Char)
  | 0, _ => none
  | _ + 1, [] => none
  | fuel + 1, c :: rest =>
    let goOn (c : Char) (rest : List Char) : Option (List Char × List Char) := do
      let (others, rest) ← multiline quote escapes fuel rest
      return (c :: others, rest)
    if c = quote then
      let quotes := min 5 ((c :: rest).takeWhile (· = quote)).length
      if 3 ≤ quotes then some (List.replicate (quotes - 3) quote, (c :: rest).drop quotes)
      else goOn c rest
    else if c = '\\' && escapes then
      match lineEnd? (skipBlanks rest) with
      | some next => multiline quote escapes fuel (skipLines next.length next)
      | none => do
        let (c, rest) ← escape? rest
        goOn c rest
    else
      match lineEnd? (c :: rest) with
      | some next => goOn '\n' next
      | none => if isForbidden c then none else goOn c rest

/-- The text behind the opening of a string over several lines, without an end of line there. -/
def afterOpening (text : List Char) : List Char := (lineEnd? text).getD text

/-- The mark around literal strings. -/
def apostrophe : Char := Char.ofNat 0x27

/-- A string of any kind. -/
def string : List Char → Option (List Char × List Char)
  | '"' :: '"' :: '"' :: rest => multiline '"' true (rest.length + 1) (afterOpening rest)
  | '"' :: rest => basic (rest.length + 1) rest
  | c :: rest =>
    if c = apostrophe then
      if [apostrophe, apostrophe].isPrefixOf rest then
        multiline apostrophe false (rest.length + 1) (afterOpening (rest.drop 2))
      else literal apostrophe rest
    else none
  | [] => none

/-! ### Numbers -/

/-- Digits between which single underscores may stand, without those. -/
def separated (isDigit : Char → Bool) : List Char → Option (List Char)
  | [] => none
  | [c] => if isDigit c then some [c] else none
  | c :: '_' :: rest => if isDigit c then (c :: ·) <$> separated isDigit rest else none
  | c :: rest => if isDigit c then (c :: ·) <$> separated isDigit rest else none

/-- The value of a digit in any base. -/
def digitValue (c : Char) : Nat := (Json.hexQuad?.digit? c).getD 16

/-- An unsigned number in a base. -/
def inBase (base : Nat) (digits : List Char) : Option Nat :=
  (separated (fun c => digitValue c < base) digits).map fun digits =>
    digits.foldl (fun n c => base * n + digitValue c) 0

/-- A decimal number without a leading zero. -/
def decimal (digits : List Char) : Option Nat :=
  if digits.length > 1 && digits.head? = some '0' then none else inBase 10 digits

/-- An integer in one of its notations. -/
def integer : List Char → Option Int
  | '0' :: 'x' :: digits => Int.ofNat <$> inBase 16 digits
  | '0' :: 'o' :: digits => Int.ofNat <$> inBase 8 digits
  | '0' :: 'b' :: digits => Int.ofNat <$> inBase 2 digits
  | '+' :: digits => Int.ofNat <$> decimal digits
  | '-' :: digits => (fun n => -Int.ofNat n) <$> decimal digits
  | digits => Int.ofNat <$> decimal digits

/-- Whether 64 bits hold the integer with its sign. -/
def fits (value : Int) : Bool :=
  Int64.minValue.toInt ≤ value && value ≤ Int64.maxValue.toInt

/-! ### Keys and values -/

/-- Characters of a key without quotes. -/
def isKeyPart (c : Char) : Bool := c.isAlphanum || c = '_' || c = '-'

/-- A key, with or without quotes. -/
def key (text : List Char) : Option (String × List Char) :=
  match text with
  | '"' :: rest => named (basic (rest.length + 1) rest)
  | c :: rest =>
    if c = apostrophe then named (literal apostrophe rest)
    else if isKeyPart c then
      named (some (text.takeWhile isKeyPart, text.dropWhile isKeyPart))
    else none
  | [] => none
where
  /-- The characters of a key as its name. -/
  named : Option (List Char × List Char) → Option (String × List Char) :=
    Option.map fun (characters, rest) => (String.ofList characters, rest)

/-- Keys with points between them; `fuel` is more than their number. -/
def keys : Nat → List Char → Option (List String × List Char)
  | 0, _ => none
  | fuel + 1, text => do
    let (first, rest) ← key text
    match skipBlanks rest with
    | '.' :: rest => do
      let (others, rest) ← keys fuel (skipBlanks rest)
      return (first :: others, rest)
    | rest => return ([first], rest)

/-- Characters of a value that is no string. -/
def isWordPart (c : Char) : Bool :=
  !(c = ' ' || c = '\t' || c = '#' || c = ',' || c = '}' || isForbidden c)

/-- A value that is no string: a word up to a blank, a mark or the end of the line. -/
def word (text : List Char) : Option (SettingValue × List Char) := do
  let rest := text.dropWhile isWordPart
  let word := text.takeWhile isWordPart
  if word = "true".toList then return (.flag true, rest)
  if word = "false".toList then return (.flag false, rest)
  let value ← integer word
  if fits value then return (.number value, rest) else none

/-- A value that is no table and no array. -/
def simple (text : List Char) : Option (SettingValue × List Char) :=
  match text with
  | '"' :: _ => (string text).map fun (s, rest) => (.text (String.ofList s), rest)
  | c :: _ =>
    if c = apostrophe then (string text).map fun (s, rest) => (.text (String.ofList s), rest)
    else word text
  | [] => none

/-- What follows a line whose content has been read: blanks, perhaps a comment, and the end. -/
def endOfLine (text : List Char) : Option (List Char) :=
  let close (rest : List Char) := if rest.isEmpty then some [] else lineEnd? rest
  match skipBlanks text with
  | '#' :: rest => close (rest.dropWhile fun c => !isForbidden c)
  | rest => close rest

/-- What follows empty lines and comments; `fuel` is at least the text's length. -/
def skipComments : Nat → List Char → List Char
  | 0, text => text
  | fuel + 1, text =>
    match endOfLine text with
    | some [] => []
    | some rest => skipComments fuel rest
    | none => skipBlanks text

mutual

/-- A value or a table. -/
def item : Nat → List Char → Option (SettingItem × List Char)
  | 0, _ => none
  | fuel + 1, text =>
    match text with
    | '{' :: rest =>
      match skipBlanks rest with
      | '}' :: rest => some (.table .enclosed [], rest)
      | rest => (entries fuel [] rest).map fun (table, rest) => (.table .enclosed table, rest)
    | '[' :: rest =>
      match skipComments rest.length rest with
      | ']' :: rest => some (.value .emptyArray, rest)
      | _ => none
    | text => (simple text).map fun (value, rest) => (.value value, rest)

/-- The further entries of a table inside a line, and its closing brace. -/
def entries : Nat → SettingTable → List Char → Option (SettingTable × List Char)
  | 0, _, _ => none
  | fuel + 1, table, text => do
    let (path, item, rest) ← assignment fuel text
    let table ← table.assign? item path
    match skipBlanks rest with
    | ',' :: rest => entries fuel table (skipBlanks rest)
    | '}' :: rest => return (table, rest)
    | _ => none

/-- Keys and what they lead to. -/
def assignment : Nat → List Char → Option (List String × SettingItem × List Char)
  | 0, _ => none
  | fuel + 1, text => do
    let (path, rest) ← keys (fuel + 1) text
    match skipBlanks rest with
    | '=' :: rest => do
      let (item, rest) ← item fuel (skipBlanks rest)
      return (path, item, rest)
    | _ => none

end

/-! ### Lines -/

/-- The keys in a heading, behind its bracket, up to the end of the line. -/
def heading (text : List Char) : Option (List String × List Char) := do
  let (path, rest) ← keys (text.length + 1) (skipBlanks text)
  match skipBlanks rest with
  | ']' :: rest => do
    let rest ← endOfLine rest
    return (path, rest)
  | _ => none

/--
Reads line after line into a table, the assignments into the table that the keys
of the last heading lead to.  `fuel` is more than the number of characters.
-/
def lines : Nat → List String → SettingTable → List Char → Option SettingTable
  | 0, _, _, _ => none
  | _ + 1, _, table, [] => some table
  | fuel + 1, current, table, text =>
    match endOfLine text with
    | some rest => lines fuel current table rest
    | none =>
      match skipBlanks text with
      | '[' :: rest => do
        let (next, rest) ← heading rest
        let table ← table.declare? next
        lines fuel next table rest
      | text => do
        let (path, item, rest) ← assignment (3 * text.length) text
        let rest ← endOfLine rest
        let table ← table.within? (SettingTable.assign? item path) current
        lines fuel current table rest

/-- The table that a file writes.  A byte order mark before it is passed over. -/
def read (file : String) : Option SettingTable :=
  let text := match file.toList with
    | c :: rest => if c.toNat = 0xFEFF then rest else c :: rest
    | [] => []
  lines (text.length + 1) [] [] text

end SettingsFile

end Keyless
