/-
Elements delimit themselves.

The octets of an element can be read off the front of anything: the first octet
tells which header it is, the header tells flags, tag and length, and the length
tells where the value ends.  So a list of elements written one after another is
told by its octets (`joined_inj`), although nothing separates them.

The headers only have room for the two flag bits and 13 bits of tag.  An element
that keeps to that is `WellTagged`; the flags then stand above the tag in the
first octet, and taking the octet apart is division with remainder.
-/
import Keyless.Metadata
import Keyless.Proofs.Bytes
import Keyless.Proofs.Outcome

namespace Keyless

namespace Element

/-- Flags of the two flag bits only, and a tag that a header has room for. -/
structure WellTagged (e : Element) : Prop where
  /-- The flags leave the low five bits, which hold the tag. -/
  flags_aligned : e.flags.toNat % 32 = 0
  /-- The flags leave the highest bit, which tells the header. -/
  flags_lt : e.flags.toNat < 128
  tag_lt : e.tag.toNat < 8192

/-! ### The headers -/

theorem toNat_or_of_aligned {high low : UInt8} {k : Nat} (aligned : high.toNat % 2 ^ k = 0)
    (hlt : low.toNat < 2 ^ k) : (high ||| low).toNat = high.toNat + low.toNat := by
  obtain ⟨q, hq⟩ := Nat.dvd_of_mod_eq_zero aligned
  rw [UInt8.toNat_or, hq, Nat.two_pow_add_eq_or_of_lt hlt]

theorem isShort_iff (e : Element) :
    e.isShort = true ↔ e.tag.toNat < 32 ∧ e.value.length < 256 := by
  simp only [isShort, Bool.and_eq_true, decide_eq_true_eq, UInt16.le_iff_toNat_le]
  show e.tag.toNat ≤ 31 ∧ e.value.length ≤ 255 ↔ _
  omega

theorem shortOctets_first {e : Element} (tagged : e.WellTagged) (short : e.isShort = true) :
    (e.flags ||| e.tag.toUInt8).toNat = e.flags.toNat + e.tag.toNat := by
  obtain ⟨htag, -⟩ := (isShort_iff e).mp short
  have hlow : e.tag.toUInt8.toNat = e.tag.toNat := by
    rw [UInt16.toNat_toUInt8]
    omega
  rw [toNat_or_of_aligned (k := 5) tagged.flags_aligned (by omega), hlow]

theorem longOctets_first {e : Element} (tagged : e.WellTagged) :
    (longForm ||| e.flags ||| UInt8.ofNat (e.tag.toNat / 256)).toNat =
      128 + e.flags.toNat + e.tag.toNat / 256 := by
  have htag := tagged.tag_lt
  have haligned := tagged.flags_aligned
  have hhigh : (UInt8.ofNat (e.tag.toNat / 256)).toNat = e.tag.toNat / 256 := by
    rw [UInt8.toNat_ofNat', Nat.mod_eq_of_lt (by omega)]
  have hform : (longForm ||| e.flags).toNat = 128 + e.flags.toNat :=
    toNat_or_of_aligned (k := 7) rfl tagged.flags_lt
  rw [toNat_or_of_aligned (k := 5) (by rw [hform]; omega) (by omega), hform, hhigh]

/-- The long header as it is written when the tag fits. -/
theorem longOctets_eq {e : Element} (tagged : e.WellTagged) :
    e.longOctets = (longForm ||| e.flags ||| UInt8.ofNat (e.tag.toNat / 256)) ::
      UInt8.ofNat e.tag.toNat :: (Bytes.bigEndian 2 e.value.length ++ e.value) := by
  have htag : (e.tag &&& 0x1FFF).toNat = e.tag.toNat := by
    rw [UInt16.toNat_and]
    show e.tag.toNat &&& 2 ^ 13 - 1 = e.tag.toNat
    rw [Nat.and_two_pow_sub_one_eq_mod]
    exact Nat.mod_eq_of_lt tagged.tag_lt
  simp only [longOctets, htag]

theorem octets_cases {e : Element} {b : Bytes} (h : e.octets = .ok b) :
    (e.isShort = true ∧ b = e.shortOctets) ∨
      (e.isShort ≠ true ∧ e.value.length < 65536 ∧ b = e.longOctets) := by
  unfold octets at h
  by_cases hshort : e.isShort = true
  · rw [if_pos hshort] at h
    exact Or.inl ⟨hshort, (Except.ok.inj h).symm⟩
  · rw [if_neg hshort] at h
    split at h
    · exact Or.inr ⟨hshort, by omega, (Except.ok.inj h).symm⟩
    · exact absurd h (by simp)

theorem octets_ne_nil {e : Element} {b : Bytes} (h : e.octets = .ok b) : b ≠ [] := by
  rcases octets_cases h with ⟨-, rfl⟩ | ⟨-, -, rfl⟩
  · simp [shortOctets]
  · simp [longOctets]

theorem exists_octets_iff {e : Element} :
    (∃ b, e.octets = .ok b) ↔ e.value.length < 65536 := by
  refine ⟨?_, fun hlen => ?_⟩
  · rintro ⟨b, h⟩
    rcases octets_cases h with ⟨hshort, -⟩ | ⟨-, hlen, -⟩
    · have := ((isShort_iff e).mp hshort).2
      omega
    · exact hlen
  · unfold octets
    by_cases hshort : e.isShort = true
    · exact ⟨_, if_pos hshort⟩
    · rw [if_neg hshort]
      exact ⟨_, if_pos (by omega)⟩

/-- What a header tells is the whole element but its value. -/
theorem ext_of_header {e f : Element} (high high' : Nat) (tagged : e.WellTagged)
    (tagged' : f.WellTagged) (hhigh : high < 32) (hhigh' : high' < 32)
    (first : e.flags.toNat + high = f.flags.toNat + high')
    (tag : high = high' → e.tag.toNat = f.tag.toNat) (value : e.value = f.value) : e = f := by
  have haligned := tagged.flags_aligned
  have haligned' := tagged'.flags_aligned
  have hflags : e.flags = f.flags := UInt8.toNat_inj.mp (by omega)
  have htag : e.tag = f.tag := UInt16.toNat_inj.mp (tag (by omega))
  cases e
  cases f
  simp_all

/-! ### Reading an element off the front -/

theorem shortOctets_append_inj {e f : Element} (tagged : e.WellTagged) (tagged' : f.WellTagged)
    (short : e.isShort = true) (short' : f.isShort = true) {x y : Bytes}
    (h : e.shortOctets ++ x = f.shortOctets ++ y) : e = f ∧ x = y := by
  obtain ⟨htag, hlen⟩ := (isShort_iff e).mp short
  obtain ⟨htag', hlen'⟩ := (isShort_iff f).mp short'
  obtain ⟨hfirst, hrest⟩ := List.cons.inj h
  obtain ⟨hlength, hvalues⟩ := List.cons.inj hrest
  have hfirst' := congrArg UInt8.toNat hfirst
  rw [shortOctets_first tagged short, shortOctets_first tagged' short'] at hfirst'
  have hlengths : e.value.length = f.value.length := by
    have h := congrArg UInt8.toNat hlength
    rw [UInt8.toNat_ofNat', UInt8.toNat_ofNat', Nat.mod_eq_of_lt (by omega),
      Nat.mod_eq_of_lt (by omega)] at h
    exact h
  obtain ⟨hvalue, hxy⟩ := List.append_inj hvalues hlengths
  exact ⟨ext_of_header _ _ tagged tagged' htag htag' hfirst' (fun h => h) hvalue, hxy⟩

theorem longOctets_append_inj {e f : Element} (tagged : e.WellTagged) (tagged' : f.WellTagged)
    (hlen : e.value.length < 65536) (hlen' : f.value.length < 65536) {x y : Bytes}
    (h : e.longOctets ++ x = f.longOctets ++ y) : e = f ∧ x = y := by
  have htag := tagged.tag_lt
  have htag' := tagged'.tag_lt
  rw [longOctets_eq tagged, longOctets_eq tagged'] at h
  obtain ⟨hfirst, hrest⟩ := List.cons.inj h
  obtain ⟨hsecond, hbody⟩ := List.cons.inj hrest
  have hfirst' := congrArg UInt8.toNat hfirst
  rw [longOctets_first tagged, longOctets_first tagged'] at hfirst'
  have hsecond' := congrArg UInt8.toNat hsecond
  rw [UInt8.toNat_ofNat', UInt8.toNat_ofNat'] at hsecond'
  have hsplit : Bytes.bigEndian 2 e.value.length ++ (e.value ++ x) =
      Bytes.bigEndian 2 f.value.length ++ (f.value ++ y) := by
    rw [← List.append_assoc, ← List.append_assoc]
    exact hbody
  obtain ⟨hlength, hvalues⟩ := List.append_inj hsplit (by simp)
  have hroom : ∀ {n : Nat}, n < 65536 → n < 256 ^ 2 := fun h => h
  have hlengths := Bytes.bigEndian_injective (hroom hlen) (hroom hlen') hlength
  obtain ⟨hvalue, hxy⟩ := List.append_inj hvalues hlengths
  refine ⟨ext_of_header (e.tag.toNat / 256) (f.tag.toNat / 256) tagged tagged' (by omega)
    (by omega) (by omega) (fun hhigh => ?_) hvalue, hxy⟩
  omega

theorem shortOctets_append_ne_longOctets_append {e f : Element} (tagged : e.WellTagged)
    (tagged' : f.WellTagged) (short : e.isShort = true) {x y : Bytes} :
    e.shortOctets ++ x ≠ f.longOctets ++ y := by
  intro h
  rw [longOctets_eq tagged'] at h
  have hfirst := congrArg UInt8.toNat (List.cons.inj h).1
  rw [shortOctets_first tagged short, longOctets_first tagged'] at hfirst
  have htag := ((isShort_iff e).mp short).1
  have haligned := tagged.flags_aligned
  have hlt := tagged.flags_lt
  omega

/-- **An element can be read off the front of any octets.** -/
theorem octets_append_inj {e f : Element} (tagged : e.WellTagged) (tagged' : f.WellTagged)
    {b c x y : Bytes} (he : e.octets = .ok b) (hf : f.octets = .ok c) (h : b ++ x = c ++ y) :
    e = f ∧ x = y := by
  rcases octets_cases he with ⟨short, rfl⟩ | ⟨-, hlen, rfl⟩
  · rcases octets_cases hf with ⟨short', rfl⟩ | ⟨-, -, rfl⟩
    · exact shortOctets_append_inj tagged tagged' short short' h
    · exact absurd h (shortOctets_append_ne_longOctets_append tagged tagged' short)
  · rcases octets_cases hf with ⟨short', rfl⟩ | ⟨-, hlen', rfl⟩
    · exact absurd h.symm (shortOctets_append_ne_longOctets_append tagged' tagged short')
    · exact longOctets_append_inj tagged tagged' hlen hlen' h

end Element

/-! ### Elements one after another -/

namespace Metadata

theorem joined_cons {e : Element} {rest : List Element} {b : Bytes} :
    joined (e :: rest) = .ok b ↔
      ∃ first others, e.octets = .ok first ∧ joined rest = .ok others ∧ first ++ others = b := by
  rw [joined, bind_eq_ok_iff]
  simp only [bind_pure_eq_ok_iff, exists_and_left]

theorem exists_joined_iff {es : List Element} :
    (∃ b, joined es = .ok b) ↔ ∀ e ∈ es, e.value.length < 65536 := by
  induction es with
  | nil => simp [joined]
  | cons e rest ih =>
      rw [List.forall_mem_cons, ← ih, ← Element.exists_octets_iff]
      refine ⟨?_, ?_⟩
      · rintro ⟨b, h⟩
        obtain ⟨first, others, hfirst, hothers, -⟩ := joined_cons.mp h
        exact ⟨⟨first, hfirst⟩, others, hothers⟩
      · rintro ⟨⟨first, hfirst⟩, others, hothers⟩
        exact ⟨_, joined_cons.mpr ⟨first, others, hfirst, hothers, rfl⟩⟩

/-- **Elements one after another are told by their octets.** -/
theorem joined_inj {es : List Element} :
    ∀ {fs : List Element} {b : Bytes}, (∀ e ∈ es, e.WellTagged) → (∀ f ∈ fs, f.WellTagged) →
      joined es = .ok b → joined fs = .ok b → es = fs := by
  induction es with
  | nil =>
      intro fs b _ _ h h'
      obtain rfl : b = [] := (Except.ok.inj h).symm
      cases fs with
      | nil => rfl
      | cons f rest =>
          obtain ⟨first, others, hfirst, -, hnil⟩ := joined_cons.mp h'
          exact absurd (List.append_eq_nil_iff.mp hnil).1 (Element.octets_ne_nil hfirst)
  | cons e rest ih =>
      intro fs b tagged tagged' h h'
      obtain ⟨first, others, hfirst, hothers, rfl⟩ := joined_cons.mp h
      cases fs with
      | nil =>
          have hnil := (Except.ok.inj h').symm
          exact absurd (List.append_eq_nil_iff.mp hnil).1 (Element.octets_ne_nil hfirst)
      | cons f rest' =>
          obtain ⟨first', others', hfirst', hothers', happ⟩ := joined_cons.mp h'
          obtain ⟨hef, hxy⟩ := Element.octets_append_inj (tagged e (by simp))
            (tagged' f (by simp)) hfirst hfirst' happ.symm
          rw [← hxy] at hothers'
          rw [hef, ih (fun g hg => tagged g (by simp [hg])) (fun g hg => tagged' g (by simp [hg]))
            hothers hothers']

end Metadata

end Keyless
