/-
Texts: white space and lines, whole numbers in decimal digits, and octets as error
messages show them.

White space is what has the Unicode property `White_Space`.
-/
import Keyless.Bytes

namespace Keyless.Text

/-! ### White space and lines -/

/-- The characters with the Unicode property `White_Space`. -/
def isBlank (c : Char) : Bool :=
  let n := c.toNat
  (0x09 ≤ n && n ≤ 0x0D) || n == 0x20 || n == 0x85 || n == 0xA0 || n == 0x1680 ||
    (0x2000 ≤ n && n ≤ 0x200A) || n == 0x2028 || n == 0x2029 || n == 0x202F ||
    n == 0x205F || n == 0x3000

/-- The text without the blanks at its two ends. -/
def trim (text : List Char) : List Char :=
  ((text.dropWhile isBlank).reverse.dropWhile isBlank).reverse

/-- The lines of a text: what stands between line feeds. -/
def lines : List Char → List (List Char)
  | [] => [[]]
  | c :: rest =>
    if c = '\n' then [] :: lines rest
    else
      match lines rest with
      | [] => [[c]]
      | line :: more => (c :: line) :: more

/-! ### Decimal digits -/

/-- The value of decimal digits. -/
def decimalValue (digits : List Char) : Nat :=
  digits.foldl (fun value c => 10 * value + (c.toNat - 48)) 0

/-- The value of a text that is nothing but digits, and not empty. -/
def digits? (text : List Char) : Option Nat :=
  if text.isEmpty || !text.all Char.isDigit then none else some (decimalValue text)

/-- A number from zero on; a plus sign may stand before it. -/
def unsigned? : List Char → Option Nat
  | '+' :: digits => digits? digits
  | digits => digits? digits

/-- A number with or without a sign. -/
def signed? : List Char → Option Int
  | '-' :: digits => (digits? digits).map fun value => -(value : Int)
  | text => (unsigned? text).map Int.ofNat

/-- An unsigned number that 64 bits hold. -/
def toUInt64? (text : String) : Option UInt64 :=
  ((unsigned? text.toList).filter (· < UInt64.size)).map UInt64.ofNat

/-- A number that 64 bits hold with its sign. -/
def toInt64Range? (text : String) : Option Int :=
  (signed? text.toList).filter fun value =>
    Int64.minValue.toInt ≤ value && value ≤ Int64.maxValue.toInt

/-! ### Octets between quotes

The character stands for an octet, so only the first 256 code points matter.  Those that
would be invisible are written as escapes. -/

/-- A hexadecimal digit in lower case; numbers above fifteen do not occur. -/
def hexDigit (value : Nat) : Char :=
  if value < 10 then Char.ofNat (value + 48) else Char.ofNat (value + 87)

/-- The number in lower-case hexadecimal without leading zeros. -/
def hexNumber (value : Nat) : String :=
  String.ofList (Nat.toDigits 16 value)

/-- Octets whose character has no visible form: controls, no-break space, soft hyphen. -/
def isInvisible (octet : UInt8) : Bool :=
  octet < 0x20 || (0x7F ≤ octet && octet ≤ 0xA0) || octet == 0xAD

/-- The octet's Latin-1 character between single quotes, escaped where it must be. -/
def quotedOctet (octet : UInt8) : String :=
  let quote := String.singleton (Char.ofNat 0x27)
  let body :=
    if octet == 0x00 then "\\0"
    else if octet == 0x09 then "\\t"
    else if octet == 0x0A then "\\n"
    else if octet == 0x0D then "\\r"
    else if octet == 0x27 then "\\" ++ quote
    else if octet == 0x5C then "\\\\"
    else if isInvisible octet then "\\u\x7b" ++ hexNumber octet.toNat ++ "\x7d"
    else String.singleton (Char.ofNat octet.toNat)
  quote ++ body ++ quote

end Keyless.Text
