/-
JSON texts.

Reading a text as a value never fails: a text that is no JSON reads as a value with
`broken` where the fault stands, and everything before the fault is kept.  So the order
in which faults are found is the order of the text, when the value is decoded.
-/
import Keyless.Hex
import Keyless.Json.Number
import Keyless.Json.Record

namespace Keyless.Json

/-- The blanks between tokens. -/
def isSpace (c : Char) : Bool := c = ' ' || c = '\n' || c = '\t' || c = '\r'

/-- The text without leading blanks. -/
def skipSpace (text : List Char) : List Char := text.dropWhile isSpace

/-- What follows `word` in the text, if the text begins with it. -/
def after? (word : String) (text : List Char) : Option (List Char) :=
  if word.toList.isPrefixOf text then some (text.drop word.length) else none

/-! ### Strings -/

/-- The number in four hexadecimal digits, and what follows them. -/
def hexQuad? : List Char → Option (Nat × List Char)
  | a :: b :: c :: d :: rest => do
    let a ← digit? a
    let b ← digit? b
    let c ← digit? c
    let d ← digit? d
    return (((a * 16 + b) * 16 + c) * 16 + d, rest)
  | _ => none
where
  /-- The value of one digit. -/
  digit? (c : Char) : Option Nat := if c.toNat < 128 then Hex.value? c.toNat.toUInt8 else none

/-- The characters that a backslash and one letter stand for. -/
def shortEscape? : Char → Option Char
  | '"' => some '"'
  | '\\' => some '\\'
  | '/' => some '/'
  | 'b' => some (Char.ofNat 8)
  | 'f' => some (Char.ofNat 12)
  | 'n' => some '\n'
  | 'r' => some '\r'
  | 't' => some '\t'
  | _ => none

/-- A string as it was read: not at all, up to its end without a value, or with one. -/
inductive StringRead where
  | broken
  | unreadable (rest : List Char)
  | value (text : String) (rest : List Char)

/-- Whether a code unit is the first or the second half of a surrogate pair. -/
def isHighSurrogate (unit : Nat) : Bool := 0xD800 ≤ unit && unit ≤ 0xDBFF
def isLowSurrogate (unit : Nat) : Bool := 0xDC00 ≤ unit && unit ≤ 0xDFFF

/--
Reads a string behind its opening quote.  `done` holds the characters so far,
latest first, or nothing once the string has lost its value; `fuel` bounds the
number of characters and escapes.
-/
def readString : Nat → Option (List Char) → List Char → StringRead
  | 0, _, _ => .broken
  | _ + 1, _, [] => .broken
  | fuel + 1, done, c :: rest =>
    if c = '"' then
      match done with
      | some characters => .value (String.ofList characters.reverse) rest
      | none => .unreadable rest
    else if c = '\\' then
      match rest with
      | [] => .broken
      | 'u' :: digits =>
        match hexQuad? digits with
        | none => .broken
        | some (unit, rest) =>
          if isHighSurrogate unit then
            match rest with
            | '\\' :: 'u' :: more =>
              match hexQuad? more with
              | none => .broken
              | some (low, rest) =>
                if isLowSurrogate low then
                  let code := 0x10000 + (unit - 0xD800) * 0x400 + (low - 0xDC00)
                  readString fuel (done.map (Char.ofNat code :: ·)) rest
                else readString fuel none rest
            | _ => readString fuel none rest
          else if isLowSurrogate unit then readString fuel none rest
          else readString fuel (done.map (Char.ofNat unit :: ·)) rest
      | letter :: rest =>
        match shortEscape? letter with
        | none => .broken
        | some c => readString fuel (done.map (c :: ·)) rest
    else if c.toNat < 32 then .broken
    else readString fuel (done.map (c :: ·)) rest

/-! ### Numbers -/

/-- A number that is no 64-bit integer; beyond the range of doubles it has no value at all. -/
def nonInteger (whole fraction : List Char) (exponent : Int) : Json :=
  if (Scaled.ofDigits whole fraction exponent).isBeyondDouble then .unreadable else .real

/-- The integer with a sign, if 64 bits hold it; a negative zero is no integer. -/
def integer (negative : Bool) (digits : List Char) : Json :=
  let magnitude := Text.decimalValue digits
  if negative then
    if magnitude != 0 && Int64.minValue.toInt ≤ -(magnitude : Int) then .int (-(magnitude : Int))
    else nonInteger digits [] 0
  else if magnitude < UInt64.size then .int magnitude
  else nonInteger digits [] 0

/-- The fraction digits behind a point, if there is a point with digits; the rest follows. -/
def readFraction : List Char → Option (List Char × List Char)
  | '.' :: rest =>
    let digits := rest.takeWhile Char.isDigit
    if digits.isEmpty then none else some (digits, rest.dropWhile Char.isDigit)
  | text => some ([], text)

/-- The exponent, if there is one; the rest follows. -/
def readExponent : List Char → Option (Option Int × List Char)
  | mark :: rest =>
    if mark = 'e' || mark = 'E' then
      let (negative, rest) :=
        match rest with
        | '-' :: more => (true, more)
        | '+' :: more => (false, more)
        | other => (false, other)
      let digits := rest.takeWhile Char.isDigit
      if digits.isEmpty then none
      else
        let size : Int := Text.decimalValue digits
        some (some (if negative then -size else size), rest.dropWhile Char.isDigit)
    else some (none, mark :: rest)
  | [] => some (none, [])

/-- Reads a number behind its sign. -/
def readNumber (negative : Bool) (text : List Char) : Json × List Char :=
  let whole := text.takeWhile Char.isDigit
  let rest := text.dropWhile Char.isDigit
  if whole.isEmpty || (whole.length > 1 && whole.head? = some '0') then (.broken, [])
  else
    match readFraction rest with
    | none => (.broken, [])
    | some (fraction, rest) =>
      match readExponent rest with
      | none => (.broken, [])
      | some (exponent, rest) =>
        if fraction.isEmpty && exponent.isNone then (integer negative whole, rest)
        else (nonInteger whole fraction (exponent.getD 0), rest)

/-! ### Values -/

/-- What stands where a text breaks before the key of a field is complete. -/
def brokenField : String × Json := ("", .nameless .broken .broken)

mutual

/-- Reads one value and what follows it; after a fault nothing follows. -/
def readValue : Nat → List Char → Json × List Char
  | 0, _ => (.broken, [])
  | fuel + 1, text =>
    match skipSpace text with
    | [] => (.broken, [])
    | '"' :: rest =>
      match readString (rest.length + 1) (some []) rest with
      | .broken => (.broken, [])
      | .unreadable rest => (.unreadable, rest)
      | .value value rest => (.string value, rest)
    | '[' :: rest =>
      match skipSpace rest with
      | ']' :: rest => (.array [], rest)
      | rest =>
        let (items, rest) := readItems fuel rest
        (.array items, rest)
    | '{' :: rest =>
      match skipSpace rest with
      | '}' :: rest => (.object [], rest)
      | rest =>
        let (fields, rest) := readFields fuel rest
        (.object fields, rest)
    | '-' :: rest => readNumber true rest
    | c :: rest =>
      if c.isDigit then readNumber false (c :: rest)
      else
        match after? "null" (c :: rest), after? "true" (c :: rest), after? "false" (c :: rest) with
        | some rest, _, _ => (.null, rest)
        | _, some rest, _ => (.bool true, rest)
        | _, _, some rest => (.bool false, rest)
        | none, none, none => (.broken, [])

/-- Reads the items of an array that is not empty, and its closing bracket. -/
def readItems : Nat → List Char → List Json × List Char
  | 0, _ => ([.broken], [])
  | fuel + 1, text =>
    let (item, rest) := readValue fuel text
    if item.isFaulty then ([item], [])
    else
      match skipSpace rest with
      | ',' :: rest =>
        let (items, rest) := readItems fuel rest
        (item :: items, rest)
      | ']' :: rest => ([item], rest)
      | _ => ([item, .broken], [])

/-- Reads the fields of an object that is not empty, and its closing bracket. -/
def readFields : Nat → List Char → List (String × Json) × List Char
  | 0, _ => ([brokenField], [])
  | fuel + 1, text =>
    match skipSpace text with
    | '"' :: rest =>
      match readString (rest.length + 1) (some []) rest with
      | .broken => ([brokenField], [])
      | .unreadable rest => readField fuel (fun value => ("", .nameless .unreadable value)) rest
      | .value key rest => readField fuel (key, ·) rest
    | text => ([("", .nameless (readValue fuel text).1 .broken)], [])

/-- Reads what follows a key, which makes a field of its value, and the other fields. -/
def readField : Nat → (Json → String × Json) → List Char → List (String × Json) × List Char
  | 0, field, _ => ([field .broken], [])
  | fuel + 1, field, text =>
    match skipSpace text with
    | ':' :: rest =>
      let (value, rest) := readValue fuel rest
      if value.isFaulty then ([field value], [])
      else
        match skipSpace rest with
        | ',' :: rest =>
          let (fields, rest) := readFields fuel rest
          (field value :: fields, rest)
        | '}' :: rest => ([field value], rest)
        | _ => ([field value, brokenField], [])
    | _ => ([field .broken], [])

end

/-- The value at the start of a text, and whether nothing but blanks follows it. -/
def read (text : String) : Json × Bool :=
  let characters := text.toList
  let (value, rest) := readValue (2 * characters.length + 2) characters
  (value, (skipSpace rest).isEmpty)

/-- Decodes a text.  What follows the value counts only if the value is in order. -/
def readAs {α : Type} (decode : Json → Except DecodeError α) (text : String) :
    Except DecodeError α :=
  let (value, done) := read text
  match decode value with
  | .error fault => .error fault.inText
  | .ok result => if done then .ok result else .error .brokenText

end Keyless.Json
