/-
Numbers can be read back from their octets.

Chains hash numbers in two forms: of a fixed width, in the long header of an
element, and of least width, as levels and as the numbers in metadata.  The least
form has no length of its own, so what it is worth to know depends on where it
stands.  Standing alone it tells its number (`minimal_injective`).  At the end of
an aggregation step it is a level, and a level above the leaves is exactly one
octet (`minimal_level`), which makes it self-delimiting from the back.
-/
import Mathlib.Algebra.Group.Nat.Defs
import Keyless.Bytes

namespace Keyless

namespace Bytes

/-- A first octet counts for as many places as octets follow. -/
theorem foldl_toNat (bytes : Bytes) :
    ∀ value : Nat, bytes.foldl (fun value octet => 256 * value + octet.toNat) value =
      value * 256 ^ bytes.length + toNat bytes := by
  induction bytes with
  | nil =>
      intro value
      simp [toNat]
  | cons octet rest ih =>
      intro value
      simp only [toNat, List.foldl_cons, List.length_cons]
      rw [ih, ih (256 * 0 + octet.toNat), Nat.pow_succ']
      generalize 256 ^ rest.length = place
      rw [Nat.add_mul, Nat.mul_zero, Nat.zero_add, ← Nat.mul_assoc, Nat.mul_comm 256 value,
        Nat.add_assoc]

theorem toNat_cons (octet : UInt8) (rest : Bytes) :
    toNat (octet :: rest) = octet.toNat * 256 ^ rest.length + toNat rest := by
  show rest.foldl (fun value octet => 256 * value + octet.toNat) (256 * 0 + octet.toNat) = _
  rw [foldl_toNat, Nat.mul_zero, Nat.zero_add]

theorem toNat_bigEndian (width value : Nat) :
    toNat (bigEndian width value) = value % 256 ^ width := by
  induction width with
  | zero => simp [bigEndian, toNat, Nat.mod_one]
  | succ width ih =>
      have hplace : 2 ^ (8 * width) = 256 ^ width := by
        rw [Nat.pow_mul]
      have hdigit : (UInt8.ofNat (value >>> (8 * width))).toNat = value / 256 ^ width % 256 := by
        rw [UInt8.toNat_ofNat', Nat.shiftRight_eq_div_pow, hplace]
      rw [bigEndian, toNat_cons, ih, length_bigEndian, hdigit, Nat.pow_succ, Nat.mod_mul,
        Nat.add_comm, Nat.mul_comm]

theorem bigEndian_injective {width value value' : Nat} (hlt : value < 256 ^ width)
    (hlt' : value' < 256 ^ width) (h : bigEndian width value = bigEndian width value') :
    value = value' := by
  have hnum := toNat_bigEndian width value
  rw [h, toNat_bigEndian, Nat.mod_eq_of_lt hlt, Nat.mod_eq_of_lt hlt'] at hnum
  exact hnum.symm

theorem toNat_dropWhile_zero (bytes : Bytes) : toNat (bytes.dropWhile (· == 0)) = toNat bytes := by
  induction bytes with
  | nil => rfl
  | cons octet rest ih =>
      by_cases hzero : octet = 0
      · subst hzero
        rw [List.dropWhile_cons_of_pos (by simp), ih, toNat_cons]
        simp
      · rw [List.dropWhile_cons_of_neg (by simpa using hzero)]

theorem toNat_minimal (value : UInt64) : toNat (minimal value) = value.toNat := by
  have hlt : value.toNat < 256 ^ 8 := value.toNat_lt
  rw [minimal, toNat_dropWhile_zero, toNat_bigEndian, Nat.mod_eq_of_lt hlt]

theorem minimal_injective {value value' : UInt64} (h : minimal value = minimal value') :
    value = value' := by
  rw [← UInt64.toNat_inj, ← toNat_minimal, ← toNat_minimal, h]

theorem length_minimal_le (value : UInt64) : (minimal value).length ≤ 8 := by
  have hsuffix := List.dropWhile_suffix (l := bigEndian 8 value.toNat) (· == 0)
  have hle := hsuffix.length_le
  rw [length_bigEndian] at hle
  exact hle

theorem minimal_level {level : UInt64} (hpos : level.toNat ≠ 0) (hle : level.toNat ≤ 255) :
    minimal level = [UInt8.ofNat level.toNat] := by
  have hshift : ∀ k, level.toNat >>> (8 * (k + 1)) = 0 := by
    intro k
    have hplace : 2 ^ 8 ≤ 2 ^ (8 * (k + 1)) := Nat.pow_le_pow_right (by decide) (by omega)
    rw [Nat.shiftRight_eq_div_pow]
    exact Nat.div_eq_of_lt (by omega)
  have hne : (UInt8.ofNat level.toNat == 0) = false := by
    rw [beq_eq_false_iff_ne, ne_eq, ← UInt8.toNat_inj, UInt8.toNat_ofNat',
      Nat.mod_eq_of_lt (by omega)]
    exact hpos
  simp only [minimal, bigEndian, hshift, Nat.mul_zero, Nat.shiftRight_zero]
  rw [List.dropWhile_cons_of_pos rfl, List.dropWhile_cons_of_pos rfl,
    List.dropWhile_cons_of_pos rfl, List.dropWhile_cons_of_pos rfl,
    List.dropWhile_cons_of_pos rfl, List.dropWhile_cons_of_pos rfl,
    List.dropWhile_cons_of_pos rfl, List.dropWhile_cons_of_neg (by simp only [hne]; decide)]

/-- **A level above the leaves can be read off the back of any octets.** -/
theorem append_level_inj {level level' : UInt64} {x y : Bytes} (hpos : level.toNat ≠ 0)
    (hle : level.toNat ≤ 255) (hpos' : level'.toNat ≠ 0) (hle' : level'.toNat ≤ 255)
    (h : x ++ minimal level = y ++ minimal level') : x = y ∧ level = level' := by
  have hlen : (minimal level).length = (minimal level').length := by
    rw [minimal_level hpos hle, minimal_level hpos' hle']
    rfl
  obtain ⟨hfront, hback⟩ := List.append_inj' h hlen
  exact ⟨hfront, minimal_injective hback⟩

end Bytes

end Keyless
