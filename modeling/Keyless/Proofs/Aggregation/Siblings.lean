/-
What a sibling brings to a step says which sibling it was.

A link hashes the octets of an imprint or the content of an identity, with nothing in
front that tells which.  The rule about metadata accepts an identity only when its
content cannot be taken for an imprint.  Here its condition is written out
(`Sibling.StandsApart`), shown to be what the rule asks of every link
(`Rule.holds_aggregationChainMetadata_iff`), and shown to be enough: siblings that stand
apart are told by their octets (`Sibling.octets_unambiguous`).

What identities an encoding tells apart does not depend on the rule.  Any two of them
that have an encoding differ in it, trustworthy or not.
-/
import Keyless.Proofs.Aggregation.Binding

namespace Keyless

/--
An imprint, or an identity that is never taken for one: without padding its content
does not read as an imprint, and padded, by one octet or two, its content is even.
-/
inductive Sibling.StandsApart : Sibling → Prop where
  | imprint (hash : Imprint) : StandsApart (.imprint hash)
  | unpadded {m : Metadata} {content : Bytes} (encoded : m.content = .ok content)
      (padding : m.padding = none) (unreadable : ∀ i, Imprint.ofOctets content ≠ .ok i) :
      StandsApart (.metadata m)
  | padded {m : Metadata} {content : Bytes} (encoded : m.content = .ok content)
      (padding : m.padding = some 1 ∨ m.padding = some 2) (even : content.length % 2 = 0) :
      StandsApart (.metadata m)

theorem Metadata.standsApart_iff {m : Metadata} :
    (Sibling.metadata m).StandsApart ↔ m.isTrustworthy = true := by
  unfold isTrustworthy
  refine ⟨?_, ?_⟩
  · intro apart
    cases apart with
    | @unpadded _ content encoded padding unreadable =>
        rw [encoded, padding]
        cases hread : Imprint.ofOctets content with
        | error e => simp [hread, Except.isOk, Except.toBool]
        | ok i => exact absurd hread (unreadable i)
    | padded encoded padding even =>
        rcases padding with padding | padding <;> simp [encoded, padding, even]
  · intro trusted
    cases hcontent : m.content with
    | error e => simp [hcontent] at trusted
    | ok content =>
        cases hpadding : m.padding with
        | none =>
            refine .unpadded hcontent hpadding fun i hread => ?_
            simp [hcontent, hpadding, hread, Except.isOk, Except.toBool] at trusted
        | some k =>
            simp only [hcontent, hpadding, Bool.and_eq_true, Bool.or_eq_true,
              decide_eq_true_eq] at trusted
            obtain ⟨hk | hk, even⟩ := trusted
            · exact .padded hcontent (Or.inl (by rw [hpadding, hk])) even
            · exact .padded hcontent (Or.inr (by rw [hpadding, hk])) even

theorem Sibling.standsApart_iff {s : Sibling} : s.StandsApart ↔ s.IsTrustworthy := by
  cases s with
  | imprint hash => exact ⟨fun _ m hm => absurd hm (by simp [identity?]), fun _ => .imprint hash⟩
  | metadata m =>
      rw [Metadata.standsApart_iff]
      exact ⟨fun h m' hm' => by rwa [← Option.some.inj hm'], fun h => h m rfl⟩

theorem Rule.holds_aggregationChainMetadata_iff {ctx : Context} :
    Rule.aggregationChainMetadata.Holds ctx ↔
      ∀ chain ∈ ctx.signature.chains, ∀ link ∈ chain.links, link.sibling.StandsApart := by
  rw [Rule.holds_iff_of_settled rfl, Signature.metadataVerdict_isClear_iff]
  simp only [AggregationChain.IsTrustworthy, Sibling.standsApart_iff]

/--
**The octets of a sibling tell the sibling**, among imprints and the identities that the
rule about metadata accepts: two of them with the same octets are the same.  Identities
are told by their content whatever the rule says of them, and the content of one that is
accepted is the octets of no imprint.
-/
theorem Sibling.octets_unambiguous :
    (∀ ctx : Context, Rule.aggregationChainMetadata.Holds ctx ↔
      ∀ chain ∈ ctx.signature.chains, ∀ link ∈ chain.links, link.sibling.StandsApart) ∧
    (∀ (a b : Sibling) (octets : Bytes), a.StandsApart → b.StandsApart →
      a.octets = .ok octets → b.octets = .ok octets → a = b) ∧
    (∀ (m m' : Metadata) (content : Bytes),
      m.content = .ok content → m'.content = .ok content → m = m') ∧
    (∀ (m : Metadata) (content : Bytes), (Sibling.metadata m).StandsApart →
      m.content = .ok content → ∀ i : Imprint, content ≠ i.octets) := by
  refine ⟨fun _ => Rule.holds_aggregationChainMetadata_iff, ?_, ?_, ?_⟩
  · intro a b octets apart apart' h h'
    exact octets_inj (standsApart_iff.mp apart) (standsApart_iff.mp apart') h h'
  · intro m m' content h h'
    exact Metadata.content_injective h h'
  · intro m content apart h i
    exact Metadata.content_ne_octets (Metadata.standsApart_iff.mp apart) h i

/-- A client of thirty letters has the content of an imprint, which no accepted identity has;
with padding it is accepted. -/
theorem Sibling.octets_unambiguous_thirtyLetters :
    let client := Metadata.ofClient "abcdefghijklmnopqrstuvwxyz0123"
    (∃ i : Imprint, client.content = .ok i.octets) ∧
      ∃ content, client.withPadding.content = .ok content ∧
        ∀ i : Imprint, content ≠ i.octets := by
  intro client
  have plain : client.content =
      .ok (0x01 :: 0x1F :: (Bytes.ofString "abcdefghijklmnopqrstuvwxyz0123" ++ [0])) := by decide
  have trusted : client.withPadding.isTrustworthy = true := by decide
  obtain ⟨content, encoded⟩ := exists_of_isOk
    (show client.withPadding.content.isOk = true by decide)
  refine ⟨⟨{ algorithm := .sha256, digest := _, length_digest := by decide }, plain⟩, content,
    encoded, ?_⟩
  exact Sibling.octets_unambiguous.2.2.2 _ content (Metadata.standsApart_iff.mpr trusted) encoded

end Keyless
