/-
When a chain can be put below a signature, and how it is taken away again.

Prepending asks five things in five places: that the chain has links, that it can be folded,
that it leads to the lowest chain's input within the levels that are left for it, that its
links fit into an index element, and, at the very end, that what was put together makes a
signature.  The last question is about all parts at once, but nearly all of it has been
answered by then.  The signature's own chains were checked before, and the check never looks
at a correction; the new chain has been folded, which took its algorithm and the octets of
its siblings (`AggregationChain.check_iff_of_output`).  What a fold never asks is whether an
imprint that it hashes is of an algorithm with a function, so that remains a condition.  The
conditions (`Signature.Admits`) are all there are.

Of the prepended signature everything is known (`Signature.HasBelow`), and enough to get the
signature back: without its lowest chain it is a signature again, and applying the levels that
were taken off the first link puts them back (`Signature.applyLevel_of_lowered`).
-/
import Keyless.Proofs.Signature.Reshaping

namespace Keyless

/-! ### What a fold has asked of a chain -/

theorem Node.octets_of_climb {algorithm : HashAlgorithm} {links : List Link} :
    ∀ {position : Nat} {node root : Node}, node.climb algorithm position links = .ok root →
      ∀ link ∈ links, ∃ octets, link.sibling.octets = .ok octets := by
  induction links with
  | nil =>
      intro position node root _ link hlink
      exact absurd hlink List.not_mem_nil
  | cons first rest ih =>
      intro position node root h
      obtain ⟨next, hnext, hrest⟩ := climb_cons.mp h
      obtain ⟨message, -, hmessage, -⟩ := Link.above_eq_ok_iff.mp hnext
      obtain ⟨octets, hoctets, -⟩ := bind_pure_eq_ok_iff.mp hmessage
      exact List.forall_mem_cons.mpr ⟨⟨octets, hoctets⟩, ih hrest⟩

theorem Node.requireImplemented_of_climb {algorithm : HashAlgorithm} {links : List Link}
    {position : Nat} {node root : Node} (linked : links ≠ [])
    (h : node.climb algorithm position links = .ok root) :
    algorithm.requireImplemented = .ok () := by
  obtain ⟨first, rest, rfl⟩ := List.exists_cons_of_ne_nil linked
  obtain ⟨next, hnext, -⟩ := climb_cons.mp h
  obtain ⟨message, -, -, hhash⟩ := Link.above_eq_ok_iff.mp hnext
  exact HashAlgorithm.requireImplemented_of_hash hhash

namespace AggregationChain

/-- The chain's input, and every imprint beside its links, is of an algorithm with a function. -/
def HasImplementedHashes (c : AggregationChain) : Prop :=
  c.inputHash.algorithm.isImplemented = true ∧
    ∀ link ∈ c.links, ∀ hash, link.sibling = .imprint hash →
      hash.algorithm.isImplemented = true

/-- **A chain that was folded passes the check when its algorithms have functions.** -/
theorem check_iff_of_output {c : AggregationChain} {level : UInt64} {top : Node}
    (linked : c.links ≠ []) (output : c.output level = .ok top) :
    c.check = .ok () ↔ c.HasImplementedHashes := by
  have encodable := Node.octets_of_climb output
  have implemented := Node.requireImplemented_of_climb linked output
  simp only [check_eq_ok_iff, Link.check_eq_ok_iff, HasImplementedHashes,
    HashAlgorithm.requireImplemented_eq_ok_iff] at implemented ⊢
  refine ⟨?_, ?_⟩
  · rintro ⟨-, -, input, links⟩
    exact ⟨input, fun link hlink => (links link hlink).2⟩
  · rintro ⟨input, links⟩
    exact ⟨linked, implemented, input, fun link hlink =>
      ⟨encodable link hlink, links link hlink⟩⟩

/-- The check does not look at a correction. -/
theorem check_setFirstLinkCorrection {correction : UInt64} (c : AggregationChain) :
    AggregationChain.check { c with links := setFirstLinkCorrection correction c.links } = .ok () ↔
      c.check = .ok () := by
  obtain ⟨_, _, _, links, _⟩ := c
  cases links <;> rfl

end AggregationChain

namespace Signature

variable {s s' : Signature} {chain : AggregationChain}

/-! ### Chains with another correction -/

theorem setFirstCorrection_eq_cons (s : Signature) (correction : UInt64) :
    setFirstCorrection correction s.chains =
      { s.lowestChain with
        links := { s.firstLink with levelCorrection := correction } ::
          s.lowestChain.links.tail } :: s.chains.tail := by
  rw [s.chains_eq_cons, setFirstCorrection, s.lowestChain_links_eq_cons, setFirstLinkCorrection,
    List.tail_cons, List.tail_cons]

theorem setFirstCorrection_firstCorrection (s : Signature) :
    setFirstCorrection s.firstCorrection s.chains = s.chains := by
  rw [setFirstCorrection_eq_cons, firstCorrection, ← lowestChain_links_eq_cons, ← chains_eq_cons]

theorem check_of_mem_setFirstCorrection (s : Signature) (correction : UInt64) :
    ∀ c ∈ setFirstCorrection correction s.chains, c.check = .ok () :=
  (forall_mem_setFirstCorrection fun c => c.check_setFirstLinkCorrection).mpr
    s.check_of_mem_chains

theorem firstCorrection_of_chains {u : Signature} {correction : UInt64}
    (h : u.chains = setFirstCorrection correction s.chains) : u.firstCorrection = correction := by
  rw [setFirstCorrection_eq_cons] at h
  simp only [firstCorrection, firstLink, lowestChain_of_chains h, List.head_cons]

/-- With any correction at its first link a signature is one again. -/
theorem exists_withCorrection (s : Signature) (correction : UInt64) :
    ∃ u : Signature,
      u.parts = { s.parts with chains := setFirstCorrection correction s.chains } := by
  refine s.exists_withChains ?_ (s.check_of_mem_setFirstCorrection correction)
  rw [setFirstCorrection_eq_cons]
  exact List.cons_ne_nil _ _

/-- **Levels that were taken off the first link can be put back.** -/
theorem applyLevel_of_lowered {u : Signature} {correction level : UInt64}
    (parts : u.parts = { s.parts with chains := setFirstCorrection correction s.chains })
    (lowered : correction.toNat + level.toNat = s.firstCorrection.toNat) :
    u.applyLevel level = .ok s := by
  have hchains : u.chains = setFirstCorrection correction s.chains := by rw [chains, parts]
  refine applyLevel_eq_ok_iff.mpr ?_
  by_cases hzero : level = 0
  · -- Nothing was taken off, so the signature has not changed.
    have hsame : correction = s.firstCorrection := by
      rw [hzero, UInt64.toNat_zero, Nat.add_zero] at lowered
      exact UInt64.toNat_inj.mp lowered
    rw [hsame, setFirstCorrection_firstCorrection] at parts
    exact Or.inl ⟨hzero, (eq_of_parts parts).symm⟩
  · refine Or.inr ⟨hzero, s.firstCorrection, ?_, ?_⟩
    · rw [firstCorrection_of_chains hchains, addWithin64?_eq_some_iff, lowered]
    · rw [hchains, setFirstCorrection_setFirstCorrection, setFirstCorrection_firstCorrection, parts]
      rfl

/-! ### Putting a chain below -/

/-- The chain can be put below the signature. -/
structure Admits (s : Signature) (chain : AggregationChain) : Prop where
  linked : chain.links ≠ []
  short : chain.links.length < 64
  /-- It leads to the lowest chain's input, within the levels that the first link leaves. -/
  leads : ∃ top, chain.output 0 = .ok top ∧ top.hash = s.lowestChain.inputHash ∧
    top.level ≤ s.firstCorrection
  implemented : chain.HasImplementedHashes

/-- The signature is another one with a chain put below it that climbs some levels. -/
structure IsPrepended (s' s : Signature) (chain : AggregationChain) (level : UInt64) : Prop where
  /-- The new chain stands at the bottom, at the time of the chain above it and with its own index
  element behind the other's index.  The first link of the other gives up the levels, of which it
  has as many, and everything further up stays. -/
  chains : ∃ element correction, chain.indexElement = .ok element ∧
    correction.toNat + level.toNat = s.firstCorrection.toNat ∧
    s'.chains =
      { inputHash := chain.inputHash
        aggregationTime := s.lowestChain.aggregationTime
        index := s.lowestChain.index ++ [element]
        links := chain.links
        algorithm := chain.algorithm } ::
      { s.lowestChain with
        links := { s.firstLink with levelCorrection := correction } ::
          s.lowestChain.links.tail } :: s.chains.tail
  calendarChain : s'.calendarChain = s.calendarChain
  authenticationRecord : s'.authenticationRecord = s.authenticationRecord
  publicationRecord : s'.publicationRecord = s.publicationRecord
  timestampRecord : s'.timestampRecord = s.timestampRecord
  /-- Without its lowest chain it is a signature, which with the levels applied is the other one. -/
  undone : ∃ u, ofParts { s'.parts with chains := s'.chains.tail } = .ok u ∧
    u.applyLevel level = .ok s

theorem exists_prepend_iff : (∃ s', s.prepend chain = .ok s') ↔ s.Admits chain := by
  refine ⟨?_, ?_⟩
  · rintro ⟨s', h⟩
    obtain ⟨linked, top, element, output, fits, joins, index, parts⟩ := prepend_eq_ok_iff.mp h
    have hchains : s'.chains = s.lowered chain element ::
        setFirstCorrection (s.firstCorrection - top.level) s.chains := by rw [chains, parts]
    -- The check of the new chain does not look at its time and index.
    have hcheck : chain.check = .ok () := s'.check_of_mem_chains (s.lowered chain element)
      (hchains ▸ List.mem_cons_self)
    exact
      { linked
        short := AggregationChain.exists_indexElement_iff.mp ⟨element, index⟩
        leads := ⟨top, output, joins, fits⟩
        implemented := (AggregationChain.check_iff_of_output linked output).mp hcheck }
  · rintro ⟨linked, short, ⟨top, output, joins, fits⟩, implemented⟩
    obtain ⟨element, index⟩ := AggregationChain.exists_indexElement_iff.mpr short
    have hcheck : (s.lowered chain element).check = .ok () :=
      (AggregationChain.check_iff_of_output linked output).mpr implemented
    obtain ⟨s', parts⟩ := s.exists_withChains (List.cons_ne_nil _ _) (List.forall_mem_cons.mpr
      ⟨hcheck, s.check_of_mem_setFirstCorrection (s.firstCorrection - top.level)⟩)
    exact ⟨s', prepend_eq_ok_iff.mpr
      ⟨linked, top, element, output, fits, joins, index, parts⟩⟩

theorem isPrepended_of_prepend (h : s.prepend chain = .ok s') :
    ∃ top, chain.output 0 = .ok top ∧ s'.IsPrepended s chain top.level := by
  obtain ⟨top, element, output, fits, -, index, hchains⟩ := chains_of_prepend h
  obtain ⟨calendarChain, authenticationRecord, publicationRecord, timestampRecord⟩ :=
    others_of_prepend h
  have lowered : (s.firstCorrection - top.level).toNat + top.level.toNat =
      s.firstCorrection.toNat := by
    rw [UInt64.toNat_sub_of_le _ _ fits]
    exact Nat.sub_add_cancel (UInt64.le_iff_toNat_le.mp fits)
  obtain ⟨u, hu⟩ := s.exists_withCorrection (s.firstCorrection - top.level)
  have hundone : u.parts = { s'.parts with chains := s'.chains.tail } := by
    obtain ⟨-, _, _, _, _, _, _, parts⟩ := prepend_eq_ok_iff.mp h
    rw [hu, hchains, parts, List.tail_cons]
  refine ⟨top, output,
    { chains := ⟨element, _, index, lowered, ?_⟩
      calendarChain, authenticationRecord, publicationRecord, timestampRecord
      undone := ⟨u, ofParts_eq_ok_iff.mpr hundone, applyLevel_of_lowered hu lowered⟩ }⟩
  rw [hchains, setFirstCorrection_eq_cons]
  rfl

/--
**Exact effect and domain of prepending.**  A chain can be put below a signature exactly when the
signature admits it, with what comes of it being the signature with that chain below it, from which
the signature can be had again.  What the chain states as its own index and time has no part in it,
whether it succeeds or fails.
-/
theorem prepend_exact (s : Signature) (chain : AggregationChain) :
    ((∃ s', s.prepend chain = .ok s') ↔ s.Admits chain) ∧
      (∀ index aggregationTime,
        s.prepend { chain with index, aggregationTime } = s.prepend chain) ∧
      ∀ s', s.prepend chain = .ok s' →
        ∃ top, chain.output 0 = .ok top ∧ s'.IsPrepended s chain top.level :=
  ⟨exists_prepend_iff, fun _ _ => rfl, fun _ => isPrepended_of_prepend⟩

end Signature

end Keyless
