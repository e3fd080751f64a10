/-
What a signature is known to be, because its parts were checked.

The check is part of the type, so these facts hold of every signature, whatever
it was read or built from: there is a lowest chain and chains have links, and a
record of the calendar root comes with a calendar chain, and never with a second
record.
-/
import Keyless.Signature
import Keyless.Proofs.Outcome

namespace Keyless

theorem Link.check_eq_ok_iff {link : Link} :
    link.check = .ok () ↔ (∃ octets, link.sibling.octets = .ok octets) ∧
      ∀ hash, link.sibling = .imprint hash → hash.algorithm.requireImplemented = .ok () := by
  unfold check
  cases link.sibling with
  | imprint hash => simp [Sibling.octets]
  | metadata identity =>
      rw [bind_eq_ok_iff]
      simp [Sibling.octets, pure, Except.pure]

theorem AggregationChain.check_eq_ok_iff {c : AggregationChain} :
    c.check = .ok () ↔ c.links ≠ [] ∧ c.algorithm.requireImplemented = .ok () ∧
      c.inputHash.algorithm.requireImplemented = .ok () ∧
      ∀ link ∈ c.links, link.check = .ok () := by
  unfold check
  simp only [throwIf_eq_ok_iff, check_bind_eq_ok_iff, forM_eq_ok_iff, ne_eq]

namespace SignatureParts

theorem checkRecords_eq_ok_iff {parts : SignatureParts} :
    parts.checkRecords = .ok () ↔
      (parts.calendarChain = none →
        parts.authenticationRecord = none ∧ parts.publicationRecord = none) ∧
      (parts.authenticationRecord = none ∨ parts.publicationRecord = none) := by
  unfold checkRecords
  cases parts.calendarChain <;> cases parts.authenticationRecord <;>
    cases parts.publicationRecord <;>
    simp [throw, throwThe, MonadExceptOf.throw, pure, Except.pure, bind, Except.bind]

theorem check_eq_ok_iff {parts : SignatureParts} :
    parts.check = .ok () ↔ parts.chains ≠ [] ∧ (∀ c ∈ parts.chains, c.check = .ok ()) ∧
      (∀ c ∈ parts.calendarChain, c.check = .ok ()) ∧
      (∀ r ∈ parts.timestampRecord, r.check = .ok ()) ∧ parts.checkRecords = .ok () := by
  unfold check
  simp only [throwIf_eq_ok_iff, check_bind_eq_ok_iff, forM_eq_ok_iff, ne_eq, Option.mem_toList,
    Option.mem_def]

end SignatureParts

namespace Signature

theorem ofParts_eq_ok_iff {parts : SignatureParts} {s : Signature} :
    ofParts parts = .ok s ↔ s.parts = parts := by
  unfold ofParts
  split
  · refine ⟨fun h => ?_, fun h => ?_⟩
    · rw [← Except.ok.inj h]
    · subst h
      rfl
  · next hfault =>
      refine ⟨fun h => absurd h (by simp), fun h => ?_⟩
      rw [← h, s.check_parts] at hfault
      exact absurd hfault (by simp)

theorem eq_of_parts {s t : Signature} (h : t.parts = s.parts) : t = s := by
  cases s
  cases t
  subst h
  rfl

theorem chains_of_parts {s t : Signature} {chains : List AggregationChain}
    (h : t.parts = { s.parts with chains }) : t.chains = chains := by
  rw [Signature.chains, h]

/-- Chains that have been checked may take the place of a signature's own. -/
theorem exists_withChains (s : Signature) {chains : List AggregationChain} (nonempty : chains ≠ [])
    (sound : ∀ c ∈ chains, c.check = .ok ()) :
    ∃ u : Signature, u.parts = { s.parts with chains } := by
  obtain ⟨-, -, others⟩ := SignatureParts.check_eq_ok_iff.mp s.check_parts
  have hcheck : ({ s.parts with chains } : SignatureParts).check = .ok () :=
    SignatureParts.check_eq_ok_iff.mpr ⟨nonempty, sound, others⟩
  exact ⟨⟨_, hcheck⟩, rfl⟩

theorem check_of_mem_chains (s : Signature) : ∀ chain ∈ s.chains, chain.check = .ok () :=
  (SignatureParts.check_eq_ok_iff.mp s.check_parts).2.1

theorem chains_eq_cons (s : Signature) : s.chains = s.lowestChain :: s.chains.tail :=
  (List.cons_head_tail _).symm

theorem lowestChain_of_chains {s : Signature} {lowest : AggregationChain}
    {rest : List AggregationChain} (h : s.chains = lowest :: rest) : s.lowestChain = lowest := by
  simp only [lowestChain, h, List.head_cons]

theorem lowestChain_congr {s t : Signature} (h : t.chains = s.chains) :
    t.lowestChain = s.lowestChain := by
  simp only [lowestChain, h]

theorem lowestChain_links_eq_cons (s : Signature) :
    s.lowestChain.links = s.firstLink :: s.lowestChain.links.tail :=
  (List.cons_head_tail _).symm

theorem links_ne_nil (s : Signature) {c : AggregationChain} (h : c ∈ s.chains) :
    c.links ≠ [] := by
  have hcheck := (SignatureParts.check_eq_ok_iff.mp s.check_parts).2.1 c h
  exact (AggregationChain.check_eq_ok_iff.mp hcheck).1

/-- A record of the calendar root comes with a calendar chain. -/
theorem exists_calendarChain (s : Signature)
    (h : s.authenticationRecord ≠ none ∨ s.publicationRecord ≠ none) :
    ∃ calendar, s.calendarChain = some calendar := by
  have records := (SignatureParts.check_eq_ok_iff.mp s.check_parts).2.2.2.2
  obtain ⟨hcalendar, -⟩ := SignatureParts.checkRecords_eq_ok_iff.mp records
  cases hchain : s.calendarChain with
  | some calendar => exact ⟨calendar, rfl⟩
  | none =>
      obtain ⟨hauthentication, hpublication⟩ := hcalendar hchain
      exact absurd h (by simp [authenticationRecord, publicationRecord, hauthentication,
        hpublication])

end Signature

end Keyless
