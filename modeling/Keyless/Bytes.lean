/-
Byte strings, as lists of octets.

Everything that is hashed, signed or written in hexadecimal is one of these.
Beside concatenation, which lists bring along, the library needs three things:
numbers of a fixed width (`bigEndian`, `littleEndian`), numbers of least width
(`minimal`), and the reading that undoes both (`toNat`).
-/

namespace Keyless

/-- A string of octets, first octet first. -/
abbrev Bytes := List UInt8

namespace Bytes

/-- The UTF-8 octets of a text. -/
def ofString (text : String) : Bytes := text.toUTF8.data.toList

/-- The number in `width` octets, most significant first; higher digits are dropped. -/
def bigEndian : Nat → Nat → Bytes
  | 0, _ => []
  | width + 1, value => UInt8.ofNat (value >>> (8 * width)) :: bigEndian width value

/-- The number in `width` octets, least significant first; higher digits are dropped. -/
def littleEndian : Nat → Nat → Bytes
  | 0, _ => []
  | width + 1, value => UInt8.ofNat value :: littleEndian width (value / 256)

/-- The number that octets denote, most significant first. -/
def toNat (bytes : Bytes) : Nat :=
  bytes.foldl (fun value octet => 256 * value + octet.toNat) 0

/-- The number that octets denote, least significant first. -/
def toNatLittle : Bytes → Nat
  | [] => 0
  | octet :: rest => octet.toNat + 256 * toNatLittle rest

/-- The shortest big-endian form of a 64-bit number.  Zero is no octets at all. -/
def minimal (value : UInt64) : Bytes :=
  (bigEndian 8 value.toNat).dropWhile (· == 0)

/-- The octets cut into pieces of `size`, the last of which may be shorter. -/
def pieces (size : Nat) (bytes : Bytes) : List Bytes :=
  if _h : bytes.length = 0 ∨ size = 0 then []
  else bytes.take size :: pieces size (bytes.drop size)
termination_by bytes.length
decreasing_by simp; omega

@[simp] theorem length_bigEndian (width value : Nat) :
    (bigEndian width value).length = width := by
  induction width with
  | zero => rfl
  | succ width ih => simp [bigEndian, ih]

@[simp] theorem length_littleEndian (width value : Nat) :
    (littleEndian width value).length = width := by
  induction width generalizing value with
  | zero => rfl
  | succ width ih => simp [littleEndian, ih]

end Bytes

end Keyless
