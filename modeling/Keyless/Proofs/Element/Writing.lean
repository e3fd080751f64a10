/-
Writing an element behind others.

Everything that is hashed or signed is written element by element, each behind what is already
there.  Writing is all or nothing: an element whose length no header has room for is refused and
leaves what is there alone, and every other element is put behind it and changes nothing else
(`Element.appendTo_refused`, `Element.appendTo_eq_iff`).

What is put there is the value under one of two headers.  They are told here by the numbers in
their octets (`Element.UnderShortHeader`, `Element.UnderLongHeader`): the long one adds 128 to its
first octet, and flags, tag and length are sums of their digits.  Which header an element gets
hangs on both its tag and its length, but never on what is already there, and whatever is written
behind it, the element can be read off.
-/
import Keyless.Proofs.Element

namespace Keyless

namespace Element

variable {e : Element} {out added : Bytes}

theorem wellTagged_of_bits (flags : e.flags &&& (nonCritical ||| forward) = e.flags)
    (tag : e.tag ≤ 0x1FFF) : e.WellTagged := by
  have hbits : e.flags.toNat = e.flags.toNat &&& 96 := congrArg UInt8.toNat flags.symm
  have hle : e.flags.toNat &&& 96 ≤ 96 := Nat.and_le_right
  have hlow : (e.flags.toNat &&& 96) % 2 ^ 5 = 0 := by
    rw [Nat.and_mod_two_pow]
    exact Nat.and_zero _
  have htag : e.tag.toNat ≤ 8191 := UInt16.le_iff_toNat_le.mp tag
  exact { flags_aligned := by omega, flags_lt := by omega, tag_lt := by omega }

/-! ### The two headers, as numbers -/

/-- The value under the short header: an octet of flags and tag, and one of length. -/
def UnderShortHeader (e : Element) (b : Bytes) : Prop :=
  ∃ first length : UInt8, b = first :: length :: e.value ∧
    first.toNat = e.flags.toNat + e.tag.toNat ∧ length.toNat = e.value.length

/-- The value under the long header: two octets of form, flags and tag, and two of length. -/
def UnderLongHeader (e : Element) (b : Bytes) : Prop :=
  ∃ first second high low : UInt8, b = first :: second :: high :: low :: e.value ∧
    first.toNat = 128 + e.flags.toNat + e.tag.toNat / 256 ∧
    second.toNat = e.tag.toNat % 256 ∧ 256 * high.toNat + low.toNat = e.value.length

theorem UnderShortHeader.not_underLongHeader (h : e.UnderShortHeader added) :
    ¬ e.UnderLongHeader added := by
  rintro ⟨first', second', high, low, hlong, -⟩
  obtain ⟨first, length, hshort, -⟩ := h
  have hlengths := congrArg List.length (hshort.symm.trans hlong)
  simp only [List.length_cons] at hlengths
  omega

theorem underShortHeader_shortOctets (tagged : e.WellTagged) (short : e.isShort = true) :
    e.UnderShortHeader e.shortOctets := by
  refine ⟨_, _, rfl, shortOctets_first tagged short, ?_⟩
  have hlen := ((isShort_iff e).mp short).2
  rw [UInt8.toNat_ofNat', Nat.mod_eq_of_lt hlen]

theorem underLongHeader_longOctets (tagged : e.WellTagged) (fits : e.value.length < 65536) :
    e.UnderLongHeader e.longOctets := by
  rw [longOctets_eq tagged]
  refine ⟨_, _, _, _, rfl, longOctets_first tagged, UInt8.toNat_ofNat', ?_⟩
  rw [UInt8.toNat_ofNat', UInt8.toNat_ofNat', Nat.shiftRight_eq_div_pow, Nat.mul_one,
    Nat.shiftRight_zero]
  omega

theorem underShortHeader_octets_iff (tagged : e.WellTagged) (h : e.octets = .ok added) :
    e.UnderShortHeader added ↔ e.isShort = true := by
  rcases octets_cases h with ⟨short, rfl⟩ | ⟨long, fits, rfl⟩
  · exact iff_of_true (underShortHeader_shortOctets tagged short) short
  · have hlong := underLongHeader_longOctets tagged fits
    exact iff_of_false (fun hshort => hshort.not_underLongHeader hlong) long

theorem underLongHeader_octets_iff (tagged : e.WellTagged) (h : e.octets = .ok added) :
    e.UnderLongHeader added ↔ ¬ e.isShort = true := by
  rcases octets_cases h with ⟨short, rfl⟩ | ⟨long, fits, rfl⟩
  · have hshort := underShortHeader_shortOctets tagged short
    exact iff_of_false hshort.not_underLongHeader fun hnot => hnot short
  · exact iff_of_true (underLongHeader_longOctets tagged fits) long

/-! ### Writing -/

/-- What does not fit under the long header is refused, and nothing is written. -/
theorem appendTo_refused (out : Bytes) (long : 65535 < e.value.length) :
    appendTo out e = (out, some (.encoding (.valueTooLong e.tag e.value.length))) := by
  have hnot : ¬ e.isShort = true := by
    rw [isShort_iff]
    omega
  unfold appendTo octets
  rw [if_neg hnot, if_neg (by omega)]

theorem appendTo_eq_iff : appendTo out e = (out ++ added, none) ↔ e.octets = .ok added := by
  unfold appendTo
  cases e.octets with
  | error refusal => simp
  | ok octets => simp

/-- What is written for an element, and may be followed by anything. -/
structure IsWritten (e : Element) (added : Bytes) : Prop where
  /-- The short header is used for small tags and short values. -/
  short_iff : e.UnderShortHeader added ↔ e.tag ≤ 0x1F ∧ e.value.length ≤ 255
  /-- The long header is used for all others. -/
  long_iff : e.UnderLongHeader added ↔ ¬ (e.tag ≤ 0x1F ∧ e.value.length ≤ 255)
  /-- No other element is written in the same octets, wherever and before whatever it stands. -/
  unique : ∀ (out added' x y : Bytes) (f : Element),
    f.flags &&& (nonCritical ||| forward) = f.flags → f.tag ≤ 0x1FFF →
    appendTo out f = (out ++ added', none) → added ++ x = added' ++ y → e = f ∧ x = y

theorem isWritten_of_octets (tagged : e.WellTagged) (h : e.octets = .ok added) :
    e.IsWritten added := by
  have hshort : e.isShort = true ↔ e.tag ≤ 0x1F ∧ e.value.length ≤ 255 := by
    rw [isShort, Bool.and_eq_true, decide_eq_true_eq, decide_eq_true_eq]
  refine ⟨?_, ?_, fun out added' x y f flags tag h' happ => ?_⟩
  · rw [underShortHeader_octets_iff tagged h, hshort]
  · rw [underLongHeader_octets_iff tagged h, hshort]
  · exact octets_append_inj tagged (wellTagged_of_bits flags tag) h (appendTo_eq_iff.mp h') happ

/--
**Elements delimit themselves, and writing is all or nothing.**  An element is refused exactly when
its value has more than 65535 octets, and then what was already written stays as it is.  Any other
element is put behind it: under the short header exactly when its tag is at most 0x1F and its value
has at most 255 octets, and so that flags, tag, value and all that follows can be read off.
-/
theorem appendTo_delimits (out : Bytes) (flags : e.flags &&& (nonCritical ||| forward) = e.flags)
    (tag : e.tag ≤ 0x1FFF) :
    ((∃ refusal, (appendTo out e).2 = some refusal) ↔ 65535 < e.value.length) ∧
      (65535 < e.value.length →
        appendTo out e = (out, some (.encoding (.valueTooLong e.tag e.value.length)))) ∧
      (e.value.length ≤ 65535 →
        ∃ added, appendTo out e = (out ++ added, none) ∧ e.IsWritten added) := by
  have tagged := wellTagged_of_bits flags tag
  by_cases fits : e.value.length ≤ 65535
  · obtain ⟨added, h⟩ := exists_octets_iff.mpr (Nat.lt_succ_of_le fits)
    have hadded : appendTo out e = (out ++ added, none) := appendTo_eq_iff.mpr h
    refine ⟨iff_of_false ?_ (by omega), fun long => absurd fits (by omega), fun _ => ?_⟩
    · simp [hadded]
    · exact ⟨added, hadded, isWritten_of_octets tagged h⟩
  · have hrefused := appendTo_refused out (Nat.lt_of_not_le fits)
    refine ⟨iff_of_true ?_ (Nat.lt_of_not_le fits), fun _ => hrefused, fun h => absurd h fits⟩
    exact ⟨_, congrArg Prod.snd hrefused⟩

/-- An element with both flags, and with the first tag that the short header has no room for. -/
def skippable (value : Bytes) : Element := { flags := nonCritical ||| forward, tag := 0x20, value }

/-- Behind other octets, one of them with a short value is written under the long header, and one
whose value is an octet too long is not written. -/
theorem appendTo_delimits_skippable :
    (∀ value, (skippable value).flags &&& (nonCritical ||| forward) = (skippable value).flags ∧
        (skippable value).tag ≤ 0x1FFF) ∧
      (∃ refusal, (appendTo [0xAA] (skippable (.replicate 65536 0))).2 = some refusal) ∧
      appendTo [0xAA] (skippable [7]) = ([0xAA, 0xE0, 0x20, 0x00, 0x01, 0x07], none) ∧
      (skippable [7]).UnderLongHeader [0xE0, 0x20, 0x00, 0x01, 0x07] := by
  have room : ∀ value, (skippable value).flags &&& (nonCritical ||| forward) =
      (skippable value).flags ∧ (skippable value).tag ≤ 0x1FFF := by
    intro value
    have hflags : (nonCritical ||| forward) &&& (nonCritical ||| forward) =
      nonCritical ||| forward := by decide
    have htag : (0x20 : UInt16) ≤ 0x1FFF := by decide
    exact ⟨hflags, htag⟩
  have delimits value := appendTo_delimits [0xAA] (room value).1 (room value).2
  refine ⟨room, (delimits _).1.mpr ?_, rfl, ?_⟩
  · rw [skippable, List.length_replicate]
    decide
  · obtain ⟨added, hadded, written⟩ := (delimits [7]).2.2 (by decide)
    obtain rfl : [0xE0, 0x20, 0x00, 0x01, 0x07] = added :=
      List.append_cancel_left (Prod.mk.inj hadded).1
    exact written.long_iff.mpr (by decide)

end Element

end Keyless
