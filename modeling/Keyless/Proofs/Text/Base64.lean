/-
Octets are read back from their base64 text.

The text is written in groups of four characters for three octets, and read in groups of four, so
writing and reading walk in step.  A symbol stands for its six bits (`Base64.value?_symbol`), and
none is the padding, so a group is taken for a shorter one only where it is one.  There the bits
that are left over are zero, as reading asks.

What the text is made of says also what is not in it: blanks and dashes (`Base64.encode_facts`).
So a part of it is never trimmed, and never taken for a marker.
-/
import Keyless.Text
import Keyless.Text.Base64

namespace Keyless.Base64

/-! ### What the text is made of -/

theorem value?_symbol : ∀ value < 64, value? (symbol value) = some value := by
  decide

theorem symbol_ne_padding : ∀ value < 64, symbol value ≠ '=' := by
  decide

/-- A character that base64 text is made of. -/
inductive IsLetter : Char → Prop
  | symbol {value : Nat} (h : value < 64) : IsLetter (symbol value)
  | padding : IsLetter '='

theorem isLetter_of_mem_encode (octets : Bytes) : ∀ c ∈ encode octets, IsLetter c := by
  fun_induction encode octets with
  | case1 => simp
  | case2 a =>
      have := a.toNat_lt
      simp only [List.forall_mem_cons]
      exact ⟨.symbol (by omega), .symbol (by omega), .padding, .padding, by simp⟩
  | case3 a b =>
      have := a.toNat_lt
      have := b.toNat_lt
      simp only [List.forall_mem_cons]
      exact ⟨.symbol (by omega), .symbol (by omega), .symbol (by omega), .padding, by simp⟩
  | case4 a b c rest ih =>
      have := a.toNat_lt
      have := b.toNat_lt
      have := c.toNat_lt
      simp only [List.forall_mem_cons]
      exact ⟨.symbol (by omega), .symbol (by omega), .symbol (by omega), .symbol (by omega), ih⟩

theorem symbol_facts : ∀ value < 64,
    Text.isBlank (symbol value) = false ∧ symbol value ≠ '-' := by
  decide

/-- There are no blanks in base64 text, and no dashes. -/
theorem encode_facts {octets : Bytes} {c : Char} (h : c ∈ encode octets) :
    Text.isBlank c = false ∧ c ≠ '-' := by
  cases isLetter_of_mem_encode octets c h with
  | symbol hvalue => exact symbol_facts _ hvalue
  | padding => decide

/-! ### Groups -/

/-- A group of four symbols is three octets, wherever it stands. -/
theorem decode_symbols {w x y z : Nat} (hw : w < 64) (hx : x < 64) (hy : y < 64) (hz : z < 64)
    (text : List Char) :
    decode (symbol w :: symbol x :: symbol y :: symbol z :: text) =
      (decode text).map fun others => UInt8.ofNat (w * 4 + x / 16) ::
        UInt8.ofNat (x % 16 * 16 + y / 4) :: UInt8.ofNat (y % 4 * 64 + z) :: others := by
  rw [decode.eq_3 _ _ _ _ _ fun hpad => absurd hpad (symbol_ne_padding z hz)]
  rw [value?_symbol w hw, value?_symbol x hx, value?_symbol y hy, value?_symbol z hz]
  cases decode text <;> rfl

/-- Three symbols and the padding are two octets, if two bits are left over. -/
theorem decode_padded {w x y : Nat} (hw : w < 64) (hx : x < 64) (hy : y < 64) (spare : y % 4 = 0) :
    decode [symbol w, symbol x, symbol y, '='] =
      some [UInt8.ofNat (w * 4 + x / 16), UInt8.ofNat (x % 16 * 16 + y / 4)] := by
  rw [decode, value?_symbol w hw, value?_symbol x hx]
  show decodePadded w x (symbol y) = _
  rw [decodePadded.eq_2 _ _ _ (symbol_ne_padding y hy), value?_symbol y hy]
  exact if_pos spare

/-- Two symbols and twice the padding are one octet, if four bits are left over. -/
theorem decode_padded_twice {w x : Nat} (hw : w < 64) (hx : x < 64) (spare : x % 16 = 0) :
    decode [symbol w, symbol x, '=', '='] = some [UInt8.ofNat (w * 4 + x / 16)] := by
  rw [decode, value?_symbol w hw, value?_symbol x hx]
  exact if_pos spare

theorem ofNat_eq_of_eq {n : Nat} {octet : UInt8} (h : n = octet.toNat) : UInt8.ofNat n = octet := by
  rw [h, UInt8.ofNat_toNat]

/-- **Octets are read back from their base64 text.** -/
theorem decode_encode (octets : Bytes) : decode (encode octets) = some octets := by
  fun_induction encode octets with
  | case1 => rfl
  | case2 a =>
      have := a.toNat_lt
      have ha : UInt8.ofNat (a.toNat / 4 * 4 + a.toNat % 4 * 16 / 16) = a :=
        ofNat_eq_of_eq (by omega)
      rw [decode_padded_twice (by omega) (by omega) (by omega), ha]
  | case3 a b =>
      have := a.toNat_lt
      have := b.toNat_lt
      have ha : UInt8.ofNat (a.toNat / 4 * 4 + (a.toNat % 4 * 16 + b.toNat / 16) / 16) = a :=
        ofNat_eq_of_eq (by omega)
      have hb : UInt8.ofNat ((a.toNat % 4 * 16 + b.toNat / 16) % 16 * 16 +
          b.toNat % 16 * 4 / 4) = b :=
        ofNat_eq_of_eq (by omega)
      rw [decode_padded (by omega) (by omega) (by omega) (by omega), ha, hb]
  | case4 a b c rest ih =>
      have := a.toNat_lt
      have := b.toNat_lt
      have := c.toNat_lt
      have ha : UInt8.ofNat (a.toNat / 4 * 4 + (a.toNat % 4 * 16 + b.toNat / 16) / 16) = a :=
        ofNat_eq_of_eq (by omega)
      have hb : UInt8.ofNat ((a.toNat % 4 * 16 + b.toNat / 16) % 16 * 16 +
          (b.toNat % 16 * 4 + c.toNat / 64) / 4) = b :=
        ofNat_eq_of_eq (by omega)
      have hc : UInt8.ofNat ((b.toNat % 16 * 4 + c.toNat / 64) % 4 * 64 + c.toNat % 64) = c :=
        ofNat_eq_of_eq (by omega)
      rw [decode_symbols (by omega) (by omega) (by omega) (by omega), ih, Option.map_some, ha, hb,
        hc]

example : decode "Zm9vYg==".toList = some (Bytes.ofString "foob") :=
  decode_encode [0x66, 0x6F, 0x6F, 0x62]

end Keyless.Base64
