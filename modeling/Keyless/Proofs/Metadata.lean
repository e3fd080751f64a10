/-
Siblings are told by their octets.

A link joins an imprint or an identity to the running hash, and what is hashed
does not say which.  Two things keep the two apart.  The content of an identity
tells the identity, as its elements delimit themselves and carry tags of their own
(`content_injective`).  And the content of a trustworthy identity is never the
octets of an imprint: padded it has an even number of octets, where imprints have
an odd one, and without padding it does not read as an imprint, which is what the
rule about metadata asks for (`content_ne_octets`).
-/
import Keyless.Proofs.Element
import Keyless.Proofs.Imprint
import Keyless.Verification.Consistency

namespace Keyless

theorem Bytes.ofString_injective {s t : String} (h : Bytes.ofString s = Bytes.ofString t) :
    s = t := by
  have hdata : s.toUTF8.data = t.toUTF8.data := Array.toList_inj.mp h
  exact String.toByteArray_inj.mp (ByteArray.ext hdata)

namespace Metadata

/-! ### The elements tell the identity -/

theorem textElement_injective (tag : UInt16) {s t : String}
    (h : textElement tag s = textElement tag t) : s = t := by
  have hvalue : Bytes.ofString s ++ [0] = Bytes.ofString t ++ [0] := congrArg Element.value h
  exact Bytes.ofString_injective (List.append_cancel_right hvalue)

theorem numberElement_injective (tag : UInt16) {v w : UInt64}
    (h : numberElement tag v = numberElement tag w) : v = w := by
  have hvalue : Bytes.minimal v = Bytes.minimal w := congrArg Element.value h
  exact Bytes.minimal_injective hvalue

theorem paddingElement_injective {k l : UInt8} (h : paddingElement k = paddingElement l) :
    k = l := by
  have hvalue : List.replicate k.toNat paddingOctet = List.replicate l.toNat paddingOctet :=
    congrArg Element.value h
  have hlen := congrArg List.length hvalue
  rw [List.length_replicate, List.length_replicate] at hlen
  exact UInt8.toNat_inj.mp hlen

theorem find?_optional {α : Type} (form : α → Element) (tag : UInt16)
    (hform : ∀ a, (form a).tag = tag) (o : Option α) (wanted : UInt16) :
    (o.map form).toList.find? (·.tag = wanted) = if tag = wanted then o.map form else none := by
  cases o with
  | none => simp
  | some a => by_cases htag : tag = wanted <;> simp [hform a, htag]

/-- What is found under a tag, which is that of a field or of none. -/
theorem find?_elements (m : Metadata) (wanted : UInt16) :
    m.elements.find? (·.tag = wanted) =
      (if paddingTag = wanted then m.padding.map paddingElement else none).or
        ((if clientIdTag = wanted then some (textElement clientIdTag m.clientId) else none).or
          (((if machineIdTag = wanted then m.machineId.map (textElement machineIdTag)
              else none).or
            (if sequenceNumberTag = wanted
              then m.sequenceNumber.map (numberElement sequenceNumberTag) else none)).or
            (if requestTimeTag = wanted then m.requestTime.map (numberElement requestTimeTag)
              else none))) := by
  have hclient : ∀ rest : List Element,
      (textElement clientIdTag m.clientId :: rest).find? (·.tag = wanted) =
        (if clientIdTag = wanted then some (textElement clientIdTag m.clientId) else none).or
          (rest.find? (·.tag = wanted)) := by
    intro rest
    by_cases htag : clientIdTag = wanted <;> simp [textElement, htag]
  rw [elements, identityElements, List.find?_append, hclient, List.find?_append,
    List.find?_append, find?_optional paddingElement paddingTag (fun _ => rfl),
    find?_optional (textElement machineIdTag) machineIdTag (fun _ => rfl),
    find?_optional (numberElement sequenceNumberTag) sequenceNumberTag (fun _ => rfl),
    find?_optional (numberElement requestTimeTag) requestTimeTag (fun _ => rfl)]

/-- No two fields share a tag, so each of them is told by what is found under its own. -/
theorem elements_injective {m m' : Metadata} (h : m.elements = m'.elements) : m = m' := by
  have same : ∀ wanted, m.elements.find? (·.tag = wanted) = m'.elements.find? (·.tag = wanted) :=
    fun wanted => by rw [h]
  simp only [find?_elements, paddingTag, clientIdTag, machineIdTag, sequenceNumberTag,
    requestTimeTag] at same
  have hpadding : m.padding = m'.padding :=
    Option.map_inj_right (fun _ _ => paddingElement_injective) |>.mp (by simpa using same 0x1E)
  have hclient : m.clientId = m'.clientId :=
    textElement_injective 0x01 (by simpa using same 0x01)
  have hmachine : m.machineId = m'.machineId :=
    Option.map_inj_right (fun _ _ => textElement_injective 0x02) |>.mp (by simpa using same 0x02)
  have hsequence : m.sequenceNumber = m'.sequenceNumber :=
    Option.map_inj_right (fun _ _ => numberElement_injective 0x03) |>.mp (by simpa using same 0x03)
  have hrequest : m.requestTime = m'.requestTime :=
    Option.map_inj_right (fun _ _ => numberElement_injective 0x04) |>.mp (by simpa using same 0x04)
  cases m
  cases m'
  simp_all

/-! ### The content tells the identity -/

theorem elements_wellTagged (m : Metadata) : ∀ e ∈ m.elements, e.WellTagged := by
  intro e he
  simp only [elements, identityElements, List.mem_append, List.mem_cons, Option.mem_toList,
    Option.map_eq_some_iff] at he
  rcases he with ⟨k, -, rfl⟩ | rfl | (⟨t, -, rfl⟩ | ⟨v, -, rfl⟩) | ⟨v, -, rfl⟩
  · exact ⟨by show 0x60 % 32 = 0; decide, by show 0x60 < 128; decide, by show 0x1E < 8192; decide⟩
  · exact ⟨rfl, by show 0 < 128; decide, by show 0x01 < 8192; decide⟩
  · exact ⟨rfl, by show 0 < 128; decide, by show 0x02 < 8192; decide⟩
  · exact ⟨rfl, by show 0 < 128; decide, by show 0x03 < 8192; decide⟩
  · exact ⟨rfl, by show 0 < 128; decide, by show 0x04 < 8192; decide⟩

/-- **The content of an identity tells the identity.** -/
theorem content_injective {m m' : Metadata} {b : Bytes} (h : m.content = .ok b)
    (h' : m'.content = .ok b) : m = m' :=
  elements_injective (joined_inj m.elements_wellTagged m'.elements_wellTagged h h')

theorem length_content_even {m : Metadata} (trusted : m.isTrustworthy = true) {k : UInt8}
    (padded : m.padding = some k) {b : Bytes} (h : m.content = .ok b) : b.length % 2 = 0 := by
  unfold isTrustworthy at trusted
  rw [h, padded] at trusted
  simp only [Bool.and_eq_true, decide_eq_true_eq] at trusted
  exact trusted.2

/-- **The content of a trustworthy identity is never an imprint.** -/
theorem content_ne_octets {m : Metadata} (trusted : m.isTrustworthy = true) {b : Bytes}
    (h : m.content = .ok b) (i : Imprint) : b ≠ i.octets := by
  rintro rfl
  cases hpadding : m.padding with
  | none =>
      unfold isTrustworthy at trusted
      rw [h, hpadding] at trusted
      simp only [Imprint.ofOctets_octets] at trusted
      exact absurd trusted (by simp [Except.isOk, Except.toBool])
  | some k =>
      have heven := length_content_even trusted hpadding h
      rw [i.length_octets_odd] at heven
      exact absurd heven (by decide)

end Metadata

namespace Sibling

/-- An imprint, or an identity that cannot be taken for one. -/
def IsTrustworthy (s : Sibling) : Prop := ∀ m, s.identity? = some m → m.isTrustworthy = true

/-- **Trustworthy siblings are told by their octets.** -/
theorem octets_inj {s s' : Sibling} (trusted : s.IsTrustworthy) (trusted' : s'.IsTrustworthy)
    {b : Bytes} (h : s.octets = .ok b) (h' : s'.octets = .ok b) : s = s' := by
  cases s with
  | imprint i =>
      obtain rfl : i.octets = b := Except.ok.inj h
      cases s' with
      | imprint j => rw [Imprint.octets_injective (Except.ok.inj h')]
      | metadata m' => exact absurd rfl (Metadata.content_ne_octets (trusted' m' rfl) h' i)
  | metadata m =>
      cases s' with
      | imprint j =>
          obtain rfl : j.octets = b := Except.ok.inj h'
          exact absurd rfl (Metadata.content_ne_octets (trusted m rfl) h j)
      | metadata m' => rw [Metadata.content_injective h h']

end Sibling

end Keyless
