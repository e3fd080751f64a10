/-
What hexadecimal text is read as, and which text is.

Writing gives each octet two lower-case digits, for its two halves.  Reading takes the UTF-8
octets of the text in pairs and reports the first octet that is no digit.  When it succeeds
it has found a digit in every octet, two for each octet that it gives, and their values are
the halves of that octet (`Hex.decodePairs_eq_ok_iff`).  Digits are characters below 128, of
which UTF-8 makes one octet each (`Bytes.ofString_ofList`), and no other character is made
octets below 128 only (`Bytes.ascii_of_ofString`), so the octets that were read are characters
of their own.  In lower case a digit is the one that its value is written with
(`Hex.value?_eq_some_iff`).  So a text is read as some octets exactly when it is what is
written for them, up to the case of letters (`Hex.decode_eq_ok_iff`).

Reading an imprint trims the text first.  No digit is a blank, so there is nothing to trim in
the text of an imprint.
-/
import Keyless.Proofs.Imprint
import Keyless.Proofs.Text.Blank

namespace Keyless

theorem Bytes.ofString_eq_flatMap (text : List Char) :
    Bytes.ofString (String.ofList text) = text.flatMap String.utf8EncodeChar := by
  show (String.ofList text).toByteArray.data.toList = _
  rw [String.toByteArray_ofList, List.utf8Encode, List.data_toByteArray]

theorem Bytes.ofString_ofList {text : List Char} (ascii : ∀ c ∈ text, c.toNat < 128) :
    Bytes.ofString (String.ofList text) = text.map fun c => UInt8.ofNat c.toNat := by
  rw [ofString_eq_flatMap]
  induction text with
  | nil => rfl
  | cons c rest ih =>
      have hsmall : c.val.toNat ≤ 127 := by
        have := ascii c List.mem_cons_self
        simp only [Char.toNat] at this
        omega
      have hfirst : String.utf8EncodeChar c = [UInt8.ofNat c.toNat] := by
        simp only [String.utf8EncodeChar, if_pos hsmall, Char.toNat]
      rw [List.flatMap_cons, List.map_cons, hfirst,
        ih fun c hc => ascii c (List.mem_cons_of_mem _ hc)]
      rfl

/-- Characters from 128 on have octets from 128 on. -/
theorem Bytes.ascii_of_ofString {text : List Char}
    (ascii : ∀ octet ∈ Bytes.ofString (String.ofList text), octet.toNat < 128) :
    ∀ c ∈ text, c.toNat < 128 := by
  intro c hc
  refine Nat.lt_of_not_le fun hlarge => ?_
  have hlarge' : ¬ c.val.toNat ≤ 127 := by
    simp only [Char.toNat] at hlarge
    omega
  -- The last octet of the character is one of these.
  have hlast : UInt8.ofNat (c.val.toNat % 64 + 128) ∈ String.utf8EncodeChar c := by
    unfold String.utf8EncodeChar
    simp only [if_neg hlarge']
    split
    · simp
    · split <;> simp
  rw [ofString_eq_flatMap] at ascii
  have hless := ascii _ (List.mem_flatMap.mpr ⟨c, hc, hlast⟩)
  rw [UInt8.toNat_ofNat'] at hless
  omega

namespace Hex

variable {bytes octets : Bytes}

/-! ### Digits -/

/-- The values of the digits of octets, two for each. -/
def halves (bytes : Bytes) : List Nat :=
  bytes.flatMap fun octet => [octet.toNat / 16, octet.toNat % 16]

theorem halves_cons (octet : UInt8) (rest : Bytes) :
    halves (octet :: rest) = octet.toNat / 16 :: octet.toNat % 16 :: halves rest := rfl

theorem length_halves (bytes : Bytes) : (halves bytes).length = 2 * bytes.length := by
  induction bytes with
  | nil => rfl
  | cons octet rest ih =>
      rw [halves_cons, List.length_cons, List.length_cons, List.length_cons, ih]
      omega

theorem lt_of_mem_halves (bytes : Bytes) : ∀ value ∈ halves bytes, value < 16 := by
  intro value hvalue
  obtain ⟨octet, -, hhalf⟩ := List.mem_flatMap.mp hvalue
  have := octet.toNat_lt
  simp only [List.mem_cons, List.not_mem_nil, or_false] at hhalf
  omega

theorem toList_encode (bytes : Bytes) :
    (encode bytes).toList = (halves bytes).map Text.hexDigit := by
  rw [encode, String.toList_ofList, halves, List.map_flatMap]
  rfl

/-- The digits that are written are below 128, in lower case, and no blanks. -/
theorem hexDigit_facts : ∀ value < 16, (Text.hexDigit value).toNat < 128 ∧
    (Text.hexDigit value).toLower = Text.hexDigit value ∧
    Text.isBlank (Text.hexDigit value) = false := by
  decide

theorem exists_of_mem_encode {c : Char} (h : c ∈ (encode bytes).toList) :
    ∃ value < 16, c = Text.hexDigit value := by
  rw [toList_encode] at h
  obtain ⟨value, hvalue, rfl⟩ := List.mem_map.mp h
  exact ⟨value, lt_of_mem_halves bytes value hvalue, rfl⟩

theorem lt_of_value? {octet : UInt8} {value : Nat} (h : value? octet = some value) :
    octet.toNat < 128 ∧ value < 16 := by
  unfold value? at h
  by_cases hdecimal : 48 ≤ octet.toNat ∧ octet.toNat ≤ 57
  · have hsub : octet.toNat - 48 = value := by simpa [hdecimal] using h
    omega
  by_cases hsmall : 97 ≤ octet.toNat ∧ octet.toNat ≤ 102
  · have hsub : octet.toNat - 87 = value := by simpa [hdecimal, hsmall] using h
    omega
  by_cases hcapital : 65 ≤ octet.toNat ∧ octet.toNat ≤ 70
  · have hsub : octet.toNat - 55 = value := by simpa [hdecimal, hsmall, hcapital] using h
    omega
  · simp [hdecimal, hsmall, hcapital] at h

/-- In lower case a digit is the one that its value is written with. -/
theorem value?_facts : ∀ n < 128, ∀ value < 16,
    value? (UInt8.ofNat (Char.ofNat n).toNat) = some value ↔
      (Char.ofNat n).toLower = Text.hexDigit value := by
  decide +kernel

theorem value?_eq_some_iff {c : Char} (ascii : c.toNat < 128) {value : Nat} (hlt : value < 16) :
    value? (UInt8.ofNat c.toNat) = some value ↔ c.toLower = Text.hexDigit value := by
  have hfacts := value?_facts c.toNat ascii value hlt
  rwa [Char.ofNat_toNat] at hfacts

/-! ### Octets -/

theorem ofNat_eq_iff {high low : Nat} (hhigh : high < 16) (hlow : low < 16) (octet : UInt8) :
    UInt8.ofNat (16 * high + low) = octet ↔ high = octet.toNat / 16 ∧ low = octet.toNat % 16 := by
  have hlt := octet.toNat_lt
  have hsum : (UInt8.ofNat (16 * high + low)).toNat = 16 * high + low := by
    rw [UInt8.toNat_ofNat']
    omega
  rw [← UInt8.toNat_inj, hsum]
  omega

/-- **Pairs are read when every octet is a digit, as the octets with these halves.** -/
theorem decodePairs_eq_ok_iff (position : Nat) (octets : Bytes) :
    octets.length % 2 = 0 → ∀ bytes : Bytes,
      decodePairs position octets = .ok bytes ↔ octets.map value? = (halves bytes).map some := by
  fun_induction decodePairs position octets with
  | case1 position high low rest hhigh =>
      intro _ bytes
      refine iff_of_false (by simp) fun h => ?_
      cases bytes <;> simp [halves, hhigh] at h
  | case2 position high low rest h hlow hhigh =>
      intro _ bytes
      refine iff_of_false (by simp) fun h => ?_
      cases bytes <;> simp [halves, hlow] at h
  | case3 position high low rest h l hlow hhigh ih =>
      intro even bytes
      have hrest := ih (by simp only [List.length_cons] at even; omega)
      cases bytes with
      | nil => simp [halves, map_eq_ok_iff]
      | cons octet others =>
          have hoctet := ofNat_eq_iff (lt_of_value? hhigh).2 (lt_of_value? hlow).2 octet
          simp only [map_eq_ok_iff, List.cons.injEq, exists_eq_right_right, hrest, hoctet,
            halves_cons, List.map_cons, hhigh, hlow, Option.some.injEq]
          rw [and_comm, and_assoc]
  | case4 octets position hshort =>
      intro even bytes
      have hnil : octets = [] := by
        cases octets with
        | nil => rfl
        | cons high rest =>
            cases rest with
            | nil => exact absurd even (by simp)
            | cons low others => exact (hshort high low others rfl).elim
      subst hnil
      cases bytes <;> simp [halves]

theorem decodeOctets_eq_ok_iff :
    decodeOctets octets = .ok bytes ↔ octets.map value? = (halves bytes).map some := by
  by_cases heven : octets.length % 2 = 0
  · rw [decodeOctets, if_neg (by omega), decodePairs_eq_ok_iff 0 octets heven]
  · have hodd : octets.length % 2 = 1 := by omega
    refine iff_of_false (by simp [decodeOctets, hodd]) fun h => heven ?_
    have hlength := congrArg List.length h
    rw [List.length_map, List.length_map, length_halves] at hlength
    omega

/-! ### Text -/

/-- In lower case no character becomes one below 128 that was none. -/
theorem ascii_of_toLower {c : Char} (h : c.toLower.toNat < 128) : c.toNat < 128 := by
  unfold Char.toLower at h
  by_cases hcapital : c.val ≥ 'A'.val ∧ c.val ≤ 'Z'.val
  · have hle : c.val.toNat ≤ 90 := UInt32.le_iff_toNat_le.mp hcapital.2
    exact Nat.lt_of_le_of_lt hle (by decide)
  · rwa [dif_neg hcapital] at h

theorem map_value?_iff {text : List Char} :
    ∀ {values : List Nat}, (∀ c ∈ text, c.toNat < 128) → (∀ value ∈ values, value < 16) →
      ((text.map fun c => UInt8.ofNat c.toNat).map value? = values.map some ↔
        text.map Char.toLower = values.map Text.hexDigit) := by
  induction text with
  | nil =>
      intro values _ _
      cases values <;> simp
  | cons c rest ih =>
      intro values ascii small
      cases values with
      | nil => simp
      | cons value others =>
          obtain ⟨hc, hrest⟩ := List.forall_mem_cons.mp ascii
          obtain ⟨hvalue, hothers⟩ := List.forall_mem_cons.mp small
          simp only [List.map_cons, List.cons.injEq, value?_eq_some_iff hc hvalue, ih hrest hothers]

/-- **Text is read as octets when it is written for them, in either case.** -/
theorem decode_eq_ok_iff {text : List Char} :
    decode (String.ofList text) = .ok bytes ↔
      text.map Char.toLower = (encode bytes).toList := by
  have hsmall := lt_of_mem_halves bytes
  rw [toList_encode, decode, decodeOctets_eq_ok_iff]
  refine ⟨fun h => ?_, fun h => ?_⟩
  · have ascii : ∀ c ∈ text, c.toNat < 128 := by
      refine Bytes.ascii_of_ofString fun octet hoctet => ?_
      have hmem := List.mem_map_of_mem (f := value?) hoctet
      rw [h] at hmem
      obtain ⟨value, -, hvalue⟩ := List.mem_map.mp hmem
      exact (lt_of_value? hvalue.symm).1
    rw [Bytes.ofString_ofList ascii] at h
    exact (map_value?_iff ascii hsmall).mp h
  · have ascii : ∀ c ∈ text, c.toNat < 128 := by
      intro c hc
      have hmem := List.mem_map_of_mem (f := Char.toLower) hc
      rw [h] at hmem
      obtain ⟨value, hvalue, hdigit⟩ := List.mem_map.mp hmem
      refine ascii_of_toLower ?_
      rw [← hdigit]
      exact (hexDigit_facts value (hsmall value hvalue)).1
    rw [Bytes.ofString_ofList ascii]
    exact (map_value?_iff ascii hsmall).mpr h

theorem map_toLower_encode (bytes : Bytes) :
    (encode bytes).toList.map Char.toLower = (encode bytes).toList := by
  rw [toList_encode, List.map_map]
  refine List.map_congr_left fun value hvalue => ?_
  exact (hexDigit_facts value (lt_of_mem_halves bytes value hvalue)).2.1

/-- **Reading hexadecimal text undoes writing it.** -/
theorem decode_encode (bytes : Bytes) : decode (encode bytes) = .ok bytes := by
  have hread := decode_eq_ok_iff.mpr (map_toLower_encode bytes)
  rwa [String.ofList_toList] at hread

end Hex

/-! ### Imprints -/

namespace Imprint

/-- **Text is read as an imprint when, trimmed, it is the text of it in either case.** -/
theorem ofText_eq_ok_iff {s : String} {i : Imprint} :
    ofText s = .ok i ↔ (Text.trim s.toList).map Char.toLower = i.text.toList := by
  rw [text, ← Hex.decode_eq_ok_iff]
  unfold ofText
  cases hdecode : Hex.decode (String.ofList (Text.trim s.toList)) with
  | ok octets => simp [ofOctets_eq_ok_iff]
  | error fault => simp

/-- **Reading the text of an imprint gives the imprint.** -/
theorem ofText_text (i : Imprint) : ofText i.text = .ok i := by
  have htrim : Text.trim i.text.toList = i.text.toList := by
    refine Text.trim_of_not_isBlank fun c hc => ?_
    obtain ⟨value, hvalue, rfl⟩ := Hex.exists_of_mem_encode hc
    exact (Hex.hexDigit_facts value hvalue).2.2
  rw [ofText_eq_ok_iff, htrim]
  exact Hex.map_toLower_encode i.octets

end Imprint

end Keyless
