/-
Levels that are applied to a signature add up.

A level is added to the correction of the first link, once, by an addition that 64 bits must
have room for.  The fold adds it again, in another order and under a bound of its own, to the
level that it is begun at.  Both see nothing but the sum.  So the level could as well have been
added where the fold begins (`Signature.IsRaised.output_eq`), whether the fold then succeeds or
fails, and of two levels one after the other it does not matter which came with which
(`Signature.IsRaised.trans_iff`).

Level 0 is not added at all, and needs no signature to be put together.  That makes no
difference: with the correction that it had a signature is the one that it was.
-/
import Keyless.Proofs.Signature.Lowering

namespace Keyless.Signature

variable {s s' t : Signature} {level a b : UInt64}

/-- The signature is another one whose first correction has grown by a level. -/
structure IsRaised (s' s : Signature) (level : UInt64) : Prop where
  /-- The correction stands at the first link of the lowest chain, and the rest of that link, of
  that chain and of the stack stays. -/
  chains : ∃ correction : UInt64, correction.toNat = s.firstCorrection.toNat + level.toNat ∧
    s'.chains =
      { s.lowestChain with
        links := { s.firstLink with levelCorrection := correction } ::
          s.lowestChain.links.tail } :: s.chains.tail
  /-- So do all other parts. -/
  others : s'.parts = { s.parts with chains := s'.chains }

theorem isRaised_iff : s'.IsRaised s level ↔
    ∃ correction : UInt64, correction.toNat = s.firstCorrection.toNat + level.toNat ∧
      s'.parts = { s.parts with chains := setFirstCorrection correction s.chains } := by
  refine ⟨fun h => ?_, ?_⟩
  · obtain ⟨correction, hsum, hchains⟩ := h.chains
    rw [← s.setFirstCorrection_eq_cons] at hchains
    exact ⟨correction, hsum, hchains ▸ h.others⟩
  · intro ⟨correction, hsum, hparts⟩
    have hchains := chains_of_parts hparts
    exact ⟨⟨correction, hsum, hchains.trans (s.setFirstCorrection_eq_cons correction)⟩,
      hchains ▸ hparts⟩

/-- **What comes of applying a level is the signature with its first correction raised.** -/
theorem applyLevel_eq_ok_iff_isRaised : s.applyLevel level = .ok s' ↔ s'.IsRaised s level := by
  rw [applyLevel_eq_ok_iff, isRaised_iff]
  by_cases hzero : level = 0
  · subst hzero
    simp only [ne_eq, not_true_eq_false, false_and, or_false, true_and]
    refine ⟨fun h => ⟨s.firstCorrection, rfl, ?_⟩, ?_⟩
    · rw [h, setFirstCorrection_firstCorrection]
      rfl
    · intro ⟨correction, hsum, hparts⟩
      rw [show correction = s.firstCorrection from UInt64.toNat_inj.mp hsum,
        setFirstCorrection_firstCorrection] at hparts
      exact eq_of_parts hparts
  · simp only [hzero, ne_eq, not_false_eq_true, false_and, false_or, true_and,
      addWithin64?_eq_some_iff]

theorem exists_isRaised_iff :
    (∃ s', IsRaised s' s level) ↔ s.firstCorrection.toNat + level.toNat < 2 ^ 64 := by
  simp only [isRaised_iff]
  refine ⟨?_, fun fits => ?_⟩
  · intro ⟨s', correction, hsum, _⟩
    have := correction.toNat_lt
    omega
  · obtain ⟨s', hparts⟩ := s.exists_withCorrection (s.firstCorrection + level)
    exact ⟨s', _, toNat_add_of_fits fits, hparts⟩

namespace IsRaised

/-- **The lowest chain leads where it led from higher up, or fails as it did.** -/
theorem output_eq (h : s'.IsRaised s level) {start higher : UInt64}
    (hsum : higher.toNat = start.toNat + level.toNat) :
    s'.lowestChain.output start = s.lowestChain.output higher := by
  obtain ⟨correction, hcorrection, hparts⟩ := isRaised_iff.mp h
  have hchains := chains_of_parts hparts
  have hlowest : s'.lowestChain =
      { s.lowestChain with links := setFirstLinkCorrection correction s.lowestChain.links } := by
    rw [s.chains_eq_cons, setFirstCorrection] at hchains
    exact lowestChain_of_chains hchains
  rw [hlowest]
  refine AggregationChain.output_of_shift s.lowestChain_links_eq_cons ?_
  have hfirst : s.firstLink.levelCorrection.toNat = s.firstCorrection.toNat := rfl
  omega

/-- **Raising a raised signature is raising by the sum.** -/
theorem trans_iff (h : s'.IsRaised s a) {sum : UInt64} (hsum : sum.toNat = a.toNat + b.toNat) :
    t.IsRaised s' b ↔ t.IsRaised s sum := by
  obtain ⟨correction, hcorrection, hparts⟩ := isRaised_iff.mp h
  have hchains := chains_of_parts hparts
  have hbase (further : UInt64) :
      ({ s'.parts with chains := setFirstCorrection further s'.chains } : SignatureParts) =
        { s.parts with chains := setFirstCorrection further s.chains } := by
    rw [hchains, setFirstCorrection_setFirstCorrection, hparts]
  simp only [isRaised_iff, hbase, firstCorrection_of_chains hchains, hcorrection, hsum,
    Nat.add_assoc]

end IsRaised

/-- The laws of applying levels to a signature, one and then another. -/
structure AddsLevels (s : Signature) (a b : UInt64) : Prop where
  succeeds_iff : (∃ s', s.applyLevel a = .ok s') ↔ s.firstCorrection.toNat + a.toNat < 2 ^ 64
  fault_eq : ∀ fault, s.applyLevel a = .error fault → fault = .computation (.correctionOverflow a)
  /-- Nothing changes but the correction. -/
  raises : ∀ s', s.applyLevel a = .ok s' → s'.IsRaised s a
  /-- The lowest chain leads to the node, or fails with the fault, that the old one does from as
  many levels further up. -/
  shifts : ∀ s', s.applyLevel a = .ok s' → ∀ start : UInt64, start.toNat + a.toNat < 2 ^ 64 →
    s'.lowestChain.output start = s.lowestChain.output (start + a)
  /-- Both levels can be applied one after the other when their sum can, to the same effect. -/
  adds : a.toNat + b.toNat < 2 ^ 64 → ∀ t,
    (∃ s', s.applyLevel a = .ok s' ∧ s'.applyLevel b = .ok t) ↔ s.applyLevel (a + b) = .ok t

theorem applyLevel_fault {fault : ChainError} (h : s.applyLevel level = .error fault) :
    fault = .computation (.correctionOverflow level) := by
  by_cases fits : s.firstCorrection.toNat + level.toNat < 2 ^ 64
  · obtain ⟨s', hraised⟩ := exists_isRaised_iff.mpr fits
    rw [applyLevel_eq_ok_iff_isRaised.mpr hraised] at h
    exact absurd h (by simp)
  · have hzero : level ≠ 0 := by
      have := s.firstCorrection.toNat_lt
      rintro rfl
      exact fits (by simpa using this)
    have hover : addWithin64? s.firstCorrection level = none := if_neg fits
    rw [applyLevel, if_neg hzero, hover] at h
    exact (Except.error.inj h).symm

/--
**Levels add up.**  Of any two levels, applying the first to a signature succeeds exactly when
64 bits have room for it above the first correction, and changes that correction alone.  The
lowest chain then leads from every level to where it led from as many levels further up.  And
applying the second level after the first is applying their sum.
-/
theorem applyLevel_adds (s : Signature) (a b : UInt64) : s.AddsLevels a b where
  succeeds_iff := by
    rw [← exists_isRaised_iff]
    exact exists_congr fun _ => applyLevel_eq_ok_iff_isRaised
  fault_eq := fun _ => applyLevel_fault
  raises := fun _ => applyLevel_eq_ok_iff_isRaised.mp
  shifts := by
    intro s' made start fits
    exact (applyLevel_eq_ok_iff_isRaised.mp made).output_eq (toNat_add_of_fits fits)
  adds := by
    intro fits t
    have hsum := toNat_add_of_fits fits
    simp only [applyLevel_eq_ok_iff_isRaised]
    refine ⟨fun ⟨s', first, second⟩ => (first.trans_iff hsum).mp second, fun both => ?_⟩
    -- What there is room for together there is room for alone.
    have hroom := exists_isRaised_iff.mp ⟨t, both⟩
    obtain ⟨s', first⟩ : ∃ s', IsRaised s' s a := exists_isRaised_iff.mpr (by omega)
    exact ⟨s', first, (first.trans_iff hsum).mpr both⟩

end Keyless.Signature
