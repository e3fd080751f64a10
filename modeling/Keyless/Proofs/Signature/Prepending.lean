/-
Putting a chain below a signature leaves the fold as it is.

The new chain climbs some levels, and as many are taken off the first link of the
chain above it.  What that link sees of the two numbers is their sum alone: the
level it is entered at and its correction are added up before anything is compared
or hashed (`levelAbove?_congr`).  So the link leads to the same node as before, or
fails as before, and with it everything above (`AggregationChain.output_of_shift`).
The sum is taken without a bound, so this holds up to the largest corrections.

That the levels can be taken off, and that the new chain can be folded in the first
place, is what prepending asks for; `Signature.prepend_eq_ok_iff` says everything it
asks for and everything it gives.
-/
import Keyless.Proofs.Aggregation.Binding
import Keyless.Proofs.Signature
import Keyless.Signature.Reshaping

namespace Keyless

/-! ### Levels moved between a chain and its first link -/

theorem toNat_add_of_fits {a b : UInt64} (fits : a.toNat + b.toNat < 2 ^ 64) :
    (a + b).toNat = a.toNat + b.toNat := by
  rw [UInt64.toNat_add, Nat.mod_eq_of_lt fits]

theorem addWithin64?_eq_some_iff {a b sum : UInt64} :
    addWithin64? a b = some sum ↔ sum.toNat = a.toNat + b.toNat := by
  unfold addWithin64?
  by_cases hfits : a.toNat + b.toNat < UInt64.size
  · rw [if_pos hfits, Option.some.injEq, ← UInt64.toNat_inj, toNat_add_of_fits hfits, eq_comm]
  · have hlt := sum.toNat_lt_size
    rw [if_neg hfits]
    exact ⟨fun h => absurd h (by simp), fun h => absurd h (by omega)⟩

theorem levelAbove?_congr {level level' correction correction' : UInt64}
    (h : level.toNat + correction.toNat = level'.toNat + correction'.toNat) :
    levelAbove? level correction = levelAbove? level' correction' := by
  have hsum : level.toNat + 1 + correction.toNat = level'.toNat + 1 + correction'.toNat := by
    omega
  simp only [levelAbove?, hsum]

theorem Link.above_of_shift {algorithm : HashAlgorithm} {position : Nat} {hash : Imprint}
    {level level' correction : UInt64} {link : Link}
    (h : level.toNat + correction.toNat = level'.toNat + link.levelCorrection.toNat) :
    Link.above algorithm position { hash, level } { link with levelCorrection := correction } =
      link.above algorithm position { hash, level := level' } := by
  simp only [Link.above, levelAbove?_congr h]
  rfl

/-- **A chain leads to one root from two levels, if its first correction makes up for their
difference.** -/
theorem AggregationChain.output_of_shift {chain : AggregationChain} {first : Link}
    {rest : List Link} {level level' correction : UInt64} (links : chain.links = first :: rest)
    (h : level.toNat + correction.toNat = level'.toNat + first.levelCorrection.toNat) :
    AggregationChain.output
        { chain with links := setFirstLinkCorrection correction chain.links } level =
      chain.output level' := by
  simp only [AggregationChain.output, links, setFirstLinkCorrection, Node.climb,
    Link.above_of_shift h]

/-! ### What a changed correction leaves as it is -/

theorem directions_setFirstLinkCorrection (correction : UInt64) (links : List Link) :
    (setFirstLinkCorrection correction links).map Link.direction = links.map Link.direction := by
  cases links <;> rfl

theorem siblings_setFirstLinkCorrection (correction : UInt64) (links : List Link) :
    (setFirstLinkCorrection correction links).map Link.sibling = links.map Link.sibling := by
  cases links <;> rfl

section Correction

variable {correction : UInt64} {chains : List AggregationChain}

/-- What does not look at corrections holds of all chains as before. -/
theorem forall_mem_setFirstCorrection {P : AggregationChain → Prop}
    (blind : ∀ c : AggregationChain,
      P { c with links := setFirstLinkCorrection correction c.links } ↔ P c) :
    (∀ c ∈ setFirstCorrection correction chains, P c) ↔ ∀ c ∈ chains, P c := by
  cases chains <;> simp [setFirstCorrection, blind]

theorem AggregationChain.indexElement_setFirstLinkCorrection (c : AggregationChain) :
    AggregationChain.indexElement
        { c with links := setFirstLinkCorrection correction c.links } =
      c.indexElement := by
  simp only [indexElement, directions, directions_setFirstLinkCorrection]

theorem isChain_setFirstCorrection (h : chains.IsChain AggregationChain.Succeeds) :
    (setFirstCorrection correction chains).IsChain AggregationChain.Succeeds := by
  cases chains with
  | nil => exact h
  | cons lowest rest =>
      cases rest with
      | nil => exact List.isChain_singleton _
      | cons upper others =>
          obtain ⟨⟨element, helement, hindex⟩, hothers⟩ := List.isChain_cons_cons.mp h
          refine List.isChain_cons_cons.mpr ⟨⟨element, ?_, hindex⟩, hothers⟩
          rw [AggregationChain.indexElement_setFirstLinkCorrection, helement]

end Correction

/-! ### Prepending -/

namespace Signature

theorem firstCorrection_congr {s t : Signature} (h : t.chains = s.chains) :
    t.firstCorrection = s.firstCorrection := by
  simp only [firstCorrection, firstLink, lowestChain_congr h]

/-- **All that prepending asks for, and all that it gives.** -/
theorem prepend_eq_ok_iff {s s' : Signature} {chain : AggregationChain} :
    s.prepend chain = .ok s' ↔
      chain.links ≠ [] ∧ ∃ top element, chain.output 0 = .ok top ∧
        top.level ≤ s.firstCorrection ∧ top.hash = s.lowestChain.inputHash ∧
        chain.indexElement = .ok element ∧
        s'.parts = { s.parts with
          chains := s.lowered chain element ::
            setFirstCorrection (s.firstCorrection - top.level) s.chains } := by
  unfold prepend
  simp only [throwIf_eq_ok_iff, bind_eq_ok_iff, ofParts_eq_ok_iff, ne_eq, not_not,
    UInt64.not_lt]
  refine and_congr_right fun _ => ⟨?_, ?_⟩
  · rintro ⟨top, output, fits, joins, element, index, parts⟩
    exact ⟨top, element, output, fits, joins, index, parts⟩
  · rintro ⟨top, element, output, fits, joins, index, parts⟩
    exact ⟨top, output, fits, joins, element, index, parts⟩

section Prepended

variable {s s' : Signature} {chain : AggregationChain}

/-- The prepended signature's chains are the new one and the old ones, the lowest of which gives up
the levels that the new one climbs. -/
theorem chains_of_prepend (h : s.prepend chain = .ok s') :
    ∃ top element, chain.output 0 = .ok top ∧ top.level ≤ s.firstCorrection ∧
      top.hash = s.lowestChain.inputHash ∧ chain.indexElement = .ok element ∧
      s'.chains = s.lowered chain element ::
        setFirstCorrection (s.firstCorrection - top.level) s.chains := by
  obtain ⟨-, top, element, output, fits, joins, index, parts⟩ := prepend_eq_ok_iff.mp h
  exact ⟨top, element, output, fits, joins, index, by rw [chains, parts]⟩

/-- Prepending has no part in anything but the chains. -/
theorem others_of_prepend (h : s.prepend chain = .ok s') :
    s'.calendarChain = s.calendarChain ∧ s'.authenticationRecord = s.authenticationRecord ∧
      s'.publicationRecord = s.publicationRecord ∧ s'.timestampRecord = s.timestampRecord := by
  obtain ⟨-, _, _, _, _, _, _, parts⟩ := prepend_eq_ok_iff.mp h
  simp only [calendarChain, authenticationRecord, publicationRecord, timestampRecord, parts,
    and_self]

theorem aggregationTime_of_prepend (h : s.prepend chain = .ok s') :
    s'.aggregationTime = s.aggregationTime := by
  obtain ⟨_, _, _, _, _, _, hchains⟩ := chains_of_prepend h
  rw [aggregationTime, lowestChain_of_chains hchains]
  rfl

theorem lowestChain_inputHash_of_prepend (h : s.prepend chain = .ok s') :
    s'.lowestChain.inputHash = chain.inputHash := by
  obtain ⟨_, _, _, _, _, _, hchains⟩ := chains_of_prepend h
  rw [lowestChain_of_chains hchains, lowered]

/-- The new chain follows on from the lowest one, whatever becomes of that one's correction. -/
theorem isChain_lowered (s : Signature) {element correction : UInt64}
    {rest : List AggregationChain} (index : chain.indexElement = .ok element)
    (follow : (s.lowestChain :: rest).IsChain AggregationChain.Succeeds) :
    (s.lowered chain element :: setFirstCorrection correction (s.lowestChain :: rest)).IsChain
      AggregationChain.Succeeds :=
  List.isChain_cons_cons.mpr ⟨⟨element, index, rfl⟩, isChain_setFirstCorrection follow⟩

theorem isChain_prepended (h : s.prepend chain = .ok s')
    (follow : s.chains.IsChain AggregationChain.Succeeds) :
    s'.chains.IsChain AggregationChain.Succeeds := by
  obtain ⟨top, element, -, -, -, index, hchains⟩ := chains_of_prepend h
  rw [s.chains_eq_cons] at hchains follow
  rw [hchains]
  exact s.isChain_lowered index follow

end Prepended

/-- What is taken off the first link is what the new chain brings, so the lowest chain leads to the
same node as before. -/
theorem output_of_lowered (s : Signature) {level : UInt64} (fits : level ≤ s.firstCorrection) :
    AggregationChain.output
        { s.lowestChain with
          links := setFirstLinkCorrection (s.firstCorrection - level) s.lowestChain.links }
        level =
      s.lowestChain.output 0 := by
  have hle : level.toNat ≤ s.firstCorrection.toNat := UInt64.le_iff_toNat_le.mp fits
  refine AggregationChain.output_of_shift s.lowestChain_links_eq_cons ?_
  rw [UInt64.toNat_sub_of_le _ _ fits, UInt64.toNat_zero, ← firstCorrection]
  omega

/-- **Chains with another one put below them fold to what they folded to.** -/
theorem aggregateOutput_lowered (s : Signature) {chain : AggregationChain} {top : Node}
    (output : chain.output 0 = .ok top) (fits : top.level ≤ s.firstCorrection) (element : UInt64) :
    aggregateOutput (s.lowered chain element ::
        setFirstCorrection (s.firstCorrection - top.level) s.chains) =
      aggregateOutput s.chains := by
  have hlowest := s.output_of_lowered fits
  have hlowered : (s.lowered chain element).output 0 = .ok top := output
  calc aggregateOutput (s.lowered chain element ::
          setFirstCorrection (s.firstCorrection - top.level) s.chains)
      = top.climbChains (setFirstCorrection (s.firstCorrection - top.level) s.chains) := by
        rw [aggregateOutput, hlowered]
        rfl
    _ = s.lowestChain.output 0 >>= fun node => node.climbChains s.chains.tail := by
        rw [s.chains_eq_cons, setFirstCorrection, Node.climbChains, hlowest, List.tail_cons]
    _ = aggregateOutput s.chains := by
        rw [s.chains_eq_cons, aggregateOutput, List.tail_cons]

/--
**Prepending preserves the fold.**  The chains of the prepended signature fold to the
same root and level as those of the signature below which the chain was put, or fail
for the same reason at the same link.
-/
theorem aggregateOutput_prepend {s s' : Signature} {chain : AggregationChain}
    (h : s.prepend chain = .ok s') : aggregateOutput s'.chains = aggregateOutput s.chains := by
  obtain ⟨top, element, output, fits, -, -, hchains⟩ := chains_of_prepend h
  rw [hchains, s.aggregateOutput_lowered output fits]

/-- The upper storey alone, with room for some levels below its first link. -/
def upperStorey (room : UInt64) : Signature where
  parts :=
    { chains := setFirstCorrection room (twoStoreys (.ofUInt32 1000)).tail
      calendarChain := none, authenticationRecord := none, publicationRecord := none
      timestampRecord := none }
  check_parts := rfl

/-- The lower storey as a chain to be prepended. -/
def lowerStorey : AggregationChain := (twoStoreys (.ofUInt32 0)).head (by decide)

/-- Below a first link with room for seven levels the whole folds as before.  Below one with room
for more than any tree has, prepending succeeds too, and the fold fails as before. -/
theorem aggregateOutput_prepend_lowerStorey :
    (∃ s, (upperStorey 7).prepend lowerStorey = .ok s ∧
        aggregateOutput s.chains = aggregateOutput (upperStorey 7).chains) ∧
      ∃ s, (upperStorey 18446744073709551615).prepend lowerStorey = .ok s ∧
        aggregateOutput s.chains = aggregateOutput (upperStorey 18446744073709551615).chains ∧
        aggregateOutput s.chains = .error (.computation (.levelExceeded 0)) := by
  have fits : ((upperStorey 7).prepend lowerStorey).isOk = true := by decide +kernel
  have fills : ((upperStorey 18446744073709551615).prepend lowerStorey).isOk = true := by
    decide +kernel
  obtain ⟨s, hs⟩ := exists_of_isOk fits
  obtain ⟨s', hs'⟩ := exists_of_isOk fills
  have hfold := aggregateOutput_prepend hs'
  exact ⟨⟨s, hs, aggregateOutput_prepend hs⟩, s', hs', hfold, hfold.trans rfl⟩

end Signature

end Keyless
