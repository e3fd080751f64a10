/-
An identity has one padding that the rule about metadata accepts.

The padding that is put in front is computed from the identity alone, and the rule looks
at the whole content.  They agree because the padding element is two octets of header and
the padding itself, whatever the identity is (`Metadata.paddingElement_octets`), so the
content is even exactly when the padding has the parity of the identity.

Without padding the rule asks that the content does not read as an imprint.  An imprint
begins with the id of its algorithm, and the content with the header of the client.  The
short header begins with the client's tag, which happens to be the id of SHA-256, and so
what decides is the length; the long header begins with no algorithm's id, and with a
client that needs it the content is longer than any imprint
(`Metadata.identity_octets`).

The rule is about signatures.  What it makes of one identity is what it makes of the
signatures in which all the others are trustworthy (`Signature.HingesOn`); every identity
that has an encoding is in one (`Signature.exists_hingesOn`).
-/
import Keyless.Proofs.Metadata
import Keyless.Proofs.Signature
import Keyless.Proofs.Verification.Policy

namespace Keyless

namespace Metadata

variable {m : Metadata} {k : UInt8} {content identity : Bytes}

/-! ### Padding and identity -/

theorem paddingElement_octets (k : UInt8) :
    (paddingElement k).octets = .ok (0x7E :: k :: List.replicate k.toNat paddingOctet) := by
  have hlength : (paddingElement k).value.length = k.toNat := List.length_replicate
  have htag : (paddingElement k).tag.toNat < 32 := by
    show paddingTag.toNat < 32
    decide
  have hfirst : (paddingElement k).flags ||| (paddingElement k).tag.toUInt8 = 0x7E := by
    show Element.nonCritical ||| Element.forward ||| paddingTag.toUInt8 = 0x7E
    decide
  have hshort : (paddingElement k).isShort = true := by
    have := k.toNat_lt
    exact (Element.isShort_iff _).mpr ⟨htag, by omega⟩
  rw [Element.octets, if_pos hshort, Element.shortOctets, hlength, UInt8.ofNat_toNat, hfirst]
  rfl

theorem exists_identity (encodable : m.content = .ok content) :
    ∃ identity, joined m.identityElements = .ok identity := by
  unfold Metadata.content elements at encodable
  cases hpadding : m.padding with
  | none =>
      rw [hpadding] at encodable
      exact ⟨content, encodable⟩
  | some k =>
      rw [hpadding] at encodable
      obtain ⟨-, identity, -, hidentity, -⟩ := joined_cons.mp encodable
      exact ⟨identity, hidentity⟩

theorem content_of_padding (encoded : joined m.identityElements = .ok identity)
    (padded : m.padding = some k) :
    m.content = .ok (0x7E :: k :: List.replicate k.toNat paddingOctet ++ identity) := by
  unfold Metadata.content elements
  rw [padded]
  exact joined_cons.mpr ⟨_, identity, paddingElement_octets k, encoded, rfl⟩

theorem exists_content (encoded : joined m.identityElements = .ok identity) :
    ∃ content, m.content = .ok content := by
  cases hpadding : m.padding with
  | none =>
      unfold Metadata.content elements
      rw [hpadding]
      exact ⟨identity, encoded⟩
  | some k => exact ⟨_, content_of_padding encoded hpadding⟩

/-- **A padded identity is trustworthy when its padding is the one that it needs.** -/
theorem isTrustworthy_iff_of_padding (encoded : joined m.identityElements = .ok identity)
    (padded : m.padding = some k) : m.isTrustworthy = true ↔ k = m.paddingLength := by
  unfold isTrustworthy paddingLength
  rw [content_of_padding encoded padded, padded, encoded]
  simp only [List.length_append, List.length_cons, List.length_replicate, Bool.and_eq_true,
    Bool.or_eq_true, decide_eq_true_eq]
  have hone : (1 : UInt8).toNat = 1 := rfl
  have htwo : (2 : UInt8).toNat = 2 := rfl
  -- Of one octet and two, the parity of the whole leaves the one that was computed.
  by_cases heven : identity.length % 2 = 0
  · rw [if_pos heven]
    refine ⟨?_, ?_⟩
    · rintro ⟨rfl | rfl, hsum⟩
      · omega
      · rfl
    · rintro rfl
      exact ⟨Or.inr rfl, by omega⟩
  · rw [if_neg heven]
    refine ⟨?_, ?_⟩
    · rintro ⟨rfl | rfl, hsum⟩
      · rfl
      · omega
    · rintro rfl
      exact ⟨Or.inl rfl, by omega⟩

/-! ### Identities without padding -/

/-- An identity begins with the client's tag, or it is long and begins with no algorithm's id. -/
theorem identity_octets (encoded : joined m.identityElements = .ok identity) :
    (∃ rest, identity = HashAlgorithm.sha256.id :: rest) ∨
      ∃ rest, identity = Element.longForm :: rest ∧ 33 < identity.length := by
  obtain ⟨client, others, hclient, -, rfl⟩ := joined_cons.mp encoded
  rcases Element.octets_cases hclient with ⟨-, rfl⟩ | ⟨hlong, -, rfl⟩
  · have hfirst : 0 ||| clientIdTag.toUInt8 = HashAlgorithm.sha256.id := by decide
    exact Or.inl ⟨_, congrArg (· :: _) hfirst⟩
  · have hlength : 256 ≤ (textElement clientIdTag m.clientId).value.length := by
      refine Nat.le_of_not_lt fun hless => hlong ((Element.isShort_iff _).mpr ⟨?_, hless⟩)
      show clientIdTag.toNat < 32
      decide
    have hfirst : Element.longForm ||| 0 ||| UInt8.ofNat ((clientIdTag &&& 0x1FFF).toNat / 256) =
        Element.longForm := by decide
    refine Or.inr ⟨_, congrArg (· :: _) hfirst, ?_⟩
    simp only [Element.longOctets, List.length_append, List.length_cons]
    omega

/-- **An identity reads as an imprint when it is as long as one of SHA-256.** -/
theorem identity_reads_iff (encoded : joined m.identityElements = .ok identity) :
    (∃ i, Imprint.ofOctets identity = .ok i) ↔ identity.length = 33 := by
  simp only [Imprint.ofOctets_eq_ok_iff]
  rcases identity_octets encoded with ⟨rest, rfl⟩ | ⟨rest, rfl, hlong⟩
  · -- The tag settles the algorithm, and the algorithm the length.
    refine ⟨?_, fun hlength => ?_⟩
    · rintro ⟨i, hi⟩
      have halgorithm : i.algorithm = .sha256 :=
        (HashAlgorithm.id_injective (List.cons.inj hi).1).symm
      rw [hi, Imprint.length_octets, halgorithm]
      rfl
    · exact ⟨⟨.sha256, rest, Nat.succ.inj hlength⟩, rfl⟩
  · refine ⟨?_, fun hlength => by omega⟩
    rintro ⟨i, hi⟩
    have hid : Element.longForm = i.algorithm.id := (List.cons.inj hi).1
    exact absurd hid (by cases i.algorithm <;> decide)

theorem isTrustworthy_withoutPadding_iff (encoded : joined m.identityElements = .ok identity) :
    m.withoutPadding.isTrustworthy = false ↔ identity.length = 33 := by
  have hcontent : m.withoutPadding.content = .ok identity := encoded
  have hpadding : m.withoutPadding.padding = none := rfl
  rw [← identity_reads_iff encoded, isTrustworthy, hcontent, hpadding]
  cases hread : Imprint.ofOctets identity <;> simp [hread, Except.isOk, Except.toBool]

end Metadata

/-! ### The rule about metadata -/

/-- The signature has the identity in one of its chains, and all its other ones are trustworthy. -/
def Signature.HingesOn (s : Signature) (m : Metadata) : Prop :=
  m ∈ s.identities ∧ ∀ other ∈ s.identities, other ≠ m → other.isTrustworthy = true

/-- A chain of one link, which joins an identity to the input. -/
def AggregationChain.joining (m : Metadata) : AggregationChain where
  inputHash := Imprint.uniform .sha256 0x11
  aggregationTime := .ofUInt32 0
  index := []
  links := [{ direction := .left, sibling := .metadata m, levelCorrection := 0 }]
  algorithm := .sha256

theorem AggregationChain.check_joining {m : Metadata} {content : Bytes}
    (encodable : m.content = .ok content) : (joining m).check = .ok () := by
  refine check_eq_ok_iff.mpr ⟨List.cons_ne_nil _ _, rfl, rfl, fun link hlink => ?_⟩
  obtain rfl := List.mem_singleton.mp hlink
  exact Link.check_eq_ok_iff.mpr ⟨⟨content, encodable⟩, by simp⟩

/-- Every identity that has an encoding is the only one of some signature. -/
theorem Signature.exists_hingesOn {m : Metadata} {content : Bytes}
    (encodable : m.content = .ok content) : ∃ s : Signature, s.HingesOn m := by
  have hparts : SignatureParts.check
      { chains := [.joining m], calendarChain := none, authenticationRecord := none
        publicationRecord := none, timestampRecord := none } = .ok () :=
    SignatureParts.check_eq_ok_iff.mpr ⟨List.cons_ne_nil _ _,
      by simpa using AggregationChain.check_joining encodable, by simp, by simp, rfl⟩
  have hidentities : Signature.identities ⟨_, hparts⟩ = [m] := rfl
  refine ⟨⟨_, hparts⟩, ?_⟩
  unfold HingesOn
  simp [hidentities]

theorem Signature.HingesOn.metadataVerdict_eq {s : Signature} {m : Metadata} (h : s.HingesOn m) :
    s.metadataVerdict = .ofCheck m.isTrustworthy := by
  obtain ⟨hmem, hothers⟩ := h
  unfold metadataVerdict
  have hsome : s.identities.isEmpty = false := by
    cases hidentities : s.identities with
    | nil => simp [hidentities] at hmem
    | cons first rest => rfl
  cases hm : m.isTrustworthy with
  | true =>
      have hall : s.identities.all Metadata.isTrustworthy = true := by
        refine List.all_eq_true.mpr fun other hother => ?_
        by_cases hsame : other = m
        · rw [hsame, hm]
        · exact hothers other hother hsame
      simp [hall, hsome, Verdict.ofCheck]
  | false =>
      have hall : ¬ s.identities.all Metadata.isTrustworthy = true := by
        intro hall
        have := List.all_eq_true.mp hall m hmem
        simp [hm] at this
      simp [hall, Verdict.ofCheck]

theorem Rule.gives_iff_of_hingesOn {ctx : Context} {run : Run} {m : Metadata} {verdict : Verdict}
    (h : ctx.signature.HingesOn m) :
    Rule.aggregationChainMetadata.Gives ctx run verdict ↔
      Verdict.ofCheck m.isTrustworthy = verdict := by
  rw [gives_iff_of_settled rfl, h.metadataVerdict_eq, Except.ok.injEq]

/--
**The padding that an identity gets is the only one that is accepted.**  Let the identity
have an encoding.  A signature that hinges on it, padded, passes the rule about metadata
exactly when the padding is of the length that is computed from the identity.  So the
padded form that an identity is given, whatever padding it had, is the accepted one; its
content is even and does not read as an imprint.  Without padding the rule fails exactly
when the content has 33 octets.
-/
theorem Metadata.padding_exact {m : Metadata} {content : Bytes}
    (encodable : m.content = .ok content) :
    (∀ (k : UInt8) (ctx : Context) (run : Run),
      ctx.signature.HingesOn { m with padding := some k } →
        (Rule.aggregationChainMetadata.Gives ctx run .ok ↔ k = m.paddingLength)) ∧
      (∀ padding, Metadata.withPadding { m with padding } =
        { m with padding := some m.paddingLength }) ∧
      (∃ padded, m.withPadding.content = .ok padded ∧ padded.length % 2 = 0 ∧
        ∀ i, Imprint.ofOctets padded ≠ .ok i) ∧
      (∃ plain, m.withoutPadding.content = .ok plain ∧ ∀ (ctx : Context) (run : Run),
        ctx.signature.HingesOn m.withoutPadding →
          (Rule.aggregationChainMetadata.Gives ctx run .fail ↔ plain.length = 33)) ∧
      ∀ padding, ∃ s : Signature, s.HingesOn { m with padding } := by
  obtain ⟨identity, encoded⟩ := exists_identity encodable
  refine ⟨?_, fun _ => rfl, ?_, ⟨identity, encoded, ?_⟩, ?_⟩
  · intro k ctx run hinges
    rw [Rule.gives_iff_of_hingesOn hinges, Verdict.ofCheck_eq_ok_iff]
    exact isTrustworthy_iff_of_padding encoded rfl
  · have hcontent := content_of_padding (m := m.withPadding) encoded rfl
    have trusted : m.withPadding.isTrustworthy = true :=
      (isTrustworthy_iff_of_padding (m := m.withPadding) encoded rfl).mpr rfl
    refine ⟨_, hcontent, length_content_even trusted rfl hcontent, fun i hi => ?_⟩
    exact content_ne_octets trusted hcontent i (Imprint.ofOctets_eq_ok_iff.mp hi)
  · intro ctx run hinges
    rw [Rule.gives_iff_of_hingesOn hinges, Verdict.ofCheck_eq_fail_iff]
    exact isTrustworthy_withoutPadding_iff encoded
  · intro padding
    obtain ⟨padded, hpadded⟩ := exists_content (m := { m with padding }) encoded
    exact Signature.exists_hingesOn hpadded

/-- A client of thirty letters is in a signature without padding, and fails the rule there. -/
theorem Metadata.padding_exact_thirtyLetters :
    ∃ ctx : Context,
      ctx.signature.HingesOn (Metadata.ofClient "abcdefghijklmnopqrstuvwxyz0123") ∧
        ∀ run, Rule.aggregationChainMetadata.Gives ctx run .fail := by
  have octets : (Metadata.ofClient "abcdefghijklmnopqrstuvwxyz0123").content.toOption =
      some (0x01 :: 0x1F :: (Bytes.ofString "abcdefghijklmnopqrstuvwxyz0123" ++ [0])) := by decide
  have plain := toOption_eq_some_iff.mp octets
  obtain ⟨-, -, -, ⟨content, hcontent, hfails⟩, carried⟩ := Metadata.padding_exact plain
  obtain ⟨s, hs⟩ := carried none
  refine ⟨Context.ofSignature s, hs, fun run => (hfails _ run hs).mpr ?_⟩
  rw [← Except.ok.inj (plain.symm.trans hcontent)]
  decide

end Keyless
