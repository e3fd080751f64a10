/-
A chain put below a consistent signature is all that its verification depends on.

Prepending changes a good deal of a signature: there is a new lowest chain, with a
time and an index that it takes from the one above it, and that one gives up some
levels of its first link.  Of the rules of internal consistency, however, only three
can tell the difference.  Those about the calendar see the root of the round and its
time, which stay (`demand_of_prepend`).  Those about indexes, times and identities
look at one chain or at two neighbours, and never at a correction, so what they found
of the old chains they find again (`forall_mem_setFirstCorrection`,
`isChain_setFirstCorrection`); the new chain satisfies them by the way it is put
there.  And the fold that the rule about consistency makes climbs through the new
chain to where it began before (`foldsTogether_prepended`).

What is left are the new chain's own algorithms and identities, about which
prepending asks nothing.  The three rules about these settle on a verdict whatever
they find, so the signature is either accepted or refused, and the verification does
not break off (`Policy.internal_run_of_prepend`).
-/
import Keyless.Proofs.Signature.Prepending
import Keyless.Proofs.Verification.Consistency

namespace Keyless

theorem AggregationChain.isTrustworthy_setFirstLinkCorrection {correction : UInt64}
    (c : AggregationChain) :
    AggregationChain.IsTrustworthy
        { c with links := setFirstLinkCorrection correction c.links } ↔
      c.IsTrustworthy := by
  -- A chain is trustworthy by its siblings alone.
  have hsiblings : ∀ c : AggregationChain,
      c.IsTrustworthy ↔ ∀ sibling ∈ c.links.map Link.sibling, sibling.IsTrustworthy := by
    intro c
    exact List.forall_mem_map.symm
  rw [hsiblings, hsiblings, siblings_setFirstLinkCorrection]

/-! ### The prepended signature -/

namespace Signature

variable {s s' : Signature} {chain : AggregationChain}

theorem inputHash_of_prepend (plain : s.timestampRecord = none) (h : s.prepend chain = .ok s') :
    s'.inputHash = chain.inputHash := by
  rw [inputHash, (others_of_prepend h).2.2.2, plain]
  exact lowestChain_inputHash_of_prepend h

theorem rootHash_of_prepend (h : s.prepend chain = .ok s') : s'.rootHash = s.rootHash := by
  obtain ⟨top, element, output, fits, -, -, hchains⟩ := chains_of_prepend h
  rw [rootHash, hchains, s.aggregateOutput_lowered output fits, rootHash]

/-- The chains fold together through the new chain as they did from the leaves. -/
theorem foldsTogether_prepended (h : s.prepend chain = .ok s') (joined : FoldsTogether 0 s.chains) :
    FoldsTogether 0 s'.chains := by
  obtain ⟨top, element, output, fits, joins, -, hchains⟩ := chains_of_prepend h
  rw [s.chains_eq_cons, setFirstCorrection] at hchains
  rw [hchains]
  refine ⟨top, output, joins, ?_⟩
  rw [s.chains_eq_cons] at joined
  cases hrest : s.chains.tail with
  | nil => trivial
  | cons upper others =>
      rw [hrest] at joined
      obtain ⟨node, hnode, hjoins, hothers⟩ := joined
      exact ⟨node, by rw [s.output_of_lowered fits, hnode], hjoins, hothers⟩

end Signature

/-! ### The rules on the prepended signature -/

/-- The rules about the calendar chain and its records. -/
def Policy.calendarRules : List Rule := [
  .calendarInputHash, .calendarAggregationTime, .calendarRegistrationTime,
  .calendarAlgorithmObsolete, .publicationRecordTime, .publicationRecordHash,
  .authenticationRecordTime, .authenticationRecordHash]

/-- The rules about chains' algorithms and identities. -/
def Policy.chainContentRules : List Rule := [
  .inputHashAlgorithmDeprecated, .aggregationChainMetadata, .aggregationAlgorithmDeprecated]

/-- The chain's algorithms were in use at a time, and its identities are no imprints. -/
structure AggregationChain.IsSoundAt (chain : AggregationChain) (time : Time) : Prop where
  algorithm : chain.algorithm.isDeprecated time = false
  inputAlgorithm : chain.inputHash.algorithm.isDeprecated time = false
  identities : chain.IsTrustworthy

namespace Context

variable {ctx ctx' : Context} {chain : AggregationChain}

/-- The rules about the calendar see nothing of a new chain. -/
theorem demand_of_prepend (made : ctx.signature.prepend chain = .ok ctx'.signature) :
    ∀ rule ∈ Policy.calendarRules, rule.demand ctx' = rule.demand ctx := by
  obtain ⟨hcalendar, hauthentication, hpublication, -⟩ := Signature.others_of_prepend made
  have htime := Signature.aggregationTime_of_prepend made
  have hroot := Signature.rootHash_of_prepend made
  simp only [Policy.calendarRules, List.forall_mem_cons, List.not_mem_nil, false_implies,
    implies_true, and_true, Rule.demand, Signature.calendarInputVerdict,
    Signature.calendarTimeVerdict, Signature.registrationVerdict,
    Signature.calendarAlgorithmVerdict, Signature.calendarVerdict, Signature.recordTimeVerdict,
    Signature.recordHashVerdict, Signature.recordVerdict, Signature.publishedRoot,
    Signature.authenticatedRoot, hcalendar, hauthentication, hpublication, htime, hroot]

theorem document_of_prepend (plain : ctx.signature.timestampRecord = none)
    (made : ctx.signature.prepend chain = .ok ctx'.signature)
    (document : ctx'.documentHash = some chain.inputHash) (level : ctx'.inputLevel = 0) :
    ∀ rule ∈ [Rule.documentHashAlgorithm, .documentHash, .inputHashLevel], rule.Holds ctx' := by
  have hinput := Signature.inputHash_of_prepend plain made
  simp only [List.forall_mem_cons, List.not_mem_nil, false_implies, implies_true, and_true]
  refine ⟨?_, ?_, ?_⟩
  · refine (Rule.holds_iff_of_settled rfl).mpr ?_
    simp [documentAlgorithmVerdict, document, hinput]
  · refine (Rule.holds_iff_of_settled rfl).mpr ?_
    simp [documentHashVerdict, document, hinput]
  · refine (Rule.holds_iff_of_settled rfl).mpr (Or.inl ?_)
    rw [inputLevelVerdict, if_pos level]

theorem timestamp_of_none (plain : ctx.signature.timestampRecord = none) :
    ∀ rule ∈ [Rule.timestampInternalAlgorithmsDeprecated, .timestampOutputAlgorithmDeprecated,
      .aggregationChainInputHash, .timestampRecordIndex, .timestampRecordTime],
      rule.Holds ctx := by
  simp only [List.forall_mem_cons, List.not_mem_nil, false_implies, implies_true, and_true,
    Rule.Holds, Rule.demand, Signature.timestampInternalAlgorithmsVerdict,
    Signature.timestampOutputAlgorithmVerdict, Signature.timestampIndexVerdict,
    Signature.timestampTimeVerdict, Signature.timestampVerdict, Signature.timestampOutputVerdict,
    plain]
  simp [Verdict.IsClear]

/-- The rules about the order of chains hold as they did. -/
theorem order_of_prepend (consistent : ctx.IsConsistent)
    (made : ctx.signature.prepend chain = .ok ctx'.signature) :
    ∀ rule ∈ [Rule.aggregationChainIndexSuccessor, .aggregationChainConsistency,
      .aggregationChainTime, .aggregationChainIndex], rule.Holds ctx' := by
  obtain ⟨top, element, -, -, -, index, hchains⟩ := Signature.chains_of_prepend made
  have holds : ∀ {rule : Rule} {settled : Except ChainError Verdict},
      rule.demand ctx' = .settled settled → (∃ verdict, settled = .ok verdict ∧ verdict.IsClear) →
      rule.Holds ctx' := by
    rintro rule settled asks ⟨verdict, rfl, clear⟩
    exact ⟨verdict, asks, clear⟩
  simp only [List.forall_mem_cons, List.not_mem_nil, false_implies, implies_true, and_true]
  refine ⟨?_, ?_, ?_, ?_⟩
  · have follow := indexSuccessorVerdict_isClear_iff.mp
      (consistent.verdict .aggregationChainIndexSuccessor (by decide) rfl)
    exact holds rfl (indexSuccessorVerdict_isClear_iff.mpr
      (Signature.isChain_prepended made follow))
  · exact holds rfl (consistencyVerdict_isClear_iff.mpr
      (Signature.foldsTogether_prepended made consistent.isCoherent.chains))
  · have htimes : ∀ c ∈ ctx'.signature.chains,
        c.aggregationTime = ctx.signature.aggregationTime := by
      rw [hchains, List.forall_mem_cons]
      refine ⟨rfl, ?_⟩
      exact (forall_mem_setFirstCorrection fun _ => Iff.rfl).mpr consistent.isCoherent.times
    refine holds rfl ⟨_, rfl, Verdict.isClear_ofCheck.mpr (List.all_eq_true.mpr ?_)⟩
    intro c hc
    rw [Signature.aggregationTime_of_prepend made]
    exact decide_eq_true (htimes c hc)
  · refine holds rfl (indexVerdict_isClear_iff.mpr ?_)
    rw [hchains, List.forall_mem_cons]
    refine ⟨⟨element, index, by simp [Signature.lowered]⟩, ?_⟩
    refine (forall_mem_setFirstCorrection fun c => ?_).mpr consistent.isNumbered
    unfold AggregationChain.IsNumbered
    rw [AggregationChain.indexElement_setFirstLinkCorrection]

/-- **The rules about algorithms and identities hold when the new chain's are sound.** -/
theorem chainContent_of_prepend_iff (plain : ctx.signature.timestampRecord = none)
    (consistent : ctx.IsConsistent)
    (made : ctx.signature.prepend chain = .ok ctx'.signature) :
    (∀ rule ∈ Policy.chainContentRules, rule.Holds ctx') ↔
      chain.IsSoundAt ctx.signature.aggregationTime := by
  obtain ⟨top, element, -, -, -, -, hchains⟩ := Signature.chains_of_prepend made
  have hinput : Rule.inputHashAlgorithmDeprecated.Holds ctx' ↔
      chain.inputHash.algorithm.isDeprecated ctx.signature.aggregationTime = false := by
    rw [Rule.holds_iff_of_settled rfl, Signature.inputAlgorithmVerdict, Verdict.isClear_ofCheck,
      Signature.inputHash_of_prepend plain made, Signature.aggregationTime_of_prepend made,
      Bool.not_eq_true']
  have hidentities : Rule.aggregationChainMetadata.Holds ctx' ↔ chain.IsTrustworthy := by
    rw [Rule.holds_iff_of_settled rfl, Signature.metadataVerdict_isClear_iff, hchains,
      List.forall_mem_cons, forall_mem_setFirstCorrection fun c =>
        c.isTrustworthy_setFirstLinkCorrection]
    exact and_iff_left consistent.isTrustworthy
  have halgorithm : Rule.aggregationAlgorithmDeprecated.Holds ctx' ↔
      chain.algorithm.isDeprecated ctx.signature.aggregationTime = false := by
    have hold := consistent.isClear .aggregationAlgorithmDeprecated (by decide) rfl
    rw [Signature.aggregationAlgorithmVerdict, Verdict.isClear_ofCheck, List.all_eq_true] at hold
    rw [Rule.holds_iff_of_settled rfl, Signature.aggregationAlgorithmVerdict,
      Verdict.isClear_ofCheck, List.all_eq_true, hchains, List.forall_mem_cons,
      forall_mem_setFirstCorrection fun _ => Iff.rfl, Bool.not_eq_true']
    exact and_iff_left hold
  simp only [Policy.chainContentRules, List.forall_mem_cons, List.not_mem_nil, false_implies,
    implies_true, and_true, hinput, hidentities, halgorithm]
  refine ⟨?_, ?_⟩
  · rintro ⟨input, identities, algorithm⟩
    exact ⟨algorithm, input, identities⟩
  · intro sound
    exact ⟨sound.inputAlgorithm, sound.identities, sound.algorithm⟩

/-- All rules of internal consistency but those three hold of the prepended signature. -/
theorem holds_of_prepend (plain : ctx.signature.timestampRecord = none)
    (consistent : ctx.IsConsistent)
    (made : ctx.signature.prepend chain = .ok ctx'.signature)
    (document : ctx'.documentHash = some chain.inputHash) (level : ctx'.inputLevel = 0)
    {rule : Rule} (internal : rule ∈ Policy.internalRules)
    (other : rule ∉ Policy.chainContentRules) : rule.Holds ctx' := by
  have hplain : ctx'.signature.timestampRecord = none :=
    (Signature.others_of_prepend made).2.2.2.trans plain
  have hgroups : ∀ rule ∈ Policy.internalRules, rule ∉ Policy.chainContentRules →
      rule ∈ [Rule.documentHashAlgorithm, .documentHash, .inputHashLevel] ∨
      rule ∈ [Rule.timestampInternalAlgorithmsDeprecated, .timestampOutputAlgorithmDeprecated,
        .aggregationChainInputHash, .timestampRecordIndex, .timestampRecordTime] ∨
      rule ∈ [Rule.aggregationChainIndexSuccessor, .aggregationChainConsistency,
        .aggregationChainTime, .aggregationChainIndex] ∨ rule ∈ Policy.calendarRules := by
    decide
  rcases hgroups rule internal other with hgroup | hgroup | hgroup | hgroup
  · exact document_of_prepend plain made document level rule hgroup
  · exact timestamp_of_none hplain rule hgroup
  · exact order_of_prepend consistent made rule hgroup
  · obtain ⟨verdict, hdemand, hclear⟩ := consistent rule internal
    exact ⟨verdict, (demand_of_prepend made rule hgroup).trans hdemand, hclear⟩

end Context

theorem Policy.chainContentRules_settled (ctx : Context) :
    ∀ rule ∈ chainContentRules, ∃ verdict : Verdict, rule.demand ctx = .settled (.ok verdict) := by
  simp [chainContentRules, Rule.demand]

/--
**Prepending preserves verifiability.**  A chain put below a signature that is
consistent in itself gives a signature for the chain's input that the rules of internal
consistency accept or refuse, without breaking off, and they accept it exactly when
the algorithms of the chain and of its input were in use at the signature's time and
none of the chain's identities can be taken for an imprint.
-/
theorem Policy.internal_run_of_prepend {ctx ctx' : Context} {chain : AggregationChain}
    {before after run : Run} (plain : ctx.signature.timestampRecord = none)
    (verified : Policy.internal.EndsOk ctx before after)
    (made : ctx.signature.prepend chain = .ok ctx'.signature)
    (document : ctx'.documentHash = some chain.inputHash) (level : ctx'.inputLevel = 0)
    (goes : run.cancelled = false) :
    ∃ outcome, Policy.internal.run ctx' run = (.ok outcome, run) ∧
      (outcome.state = .ok ↔ chain.IsSoundAt ctx.signature.aggregationTime) := by
  obtain ⟨-, consistent, -⟩ := Policy.internalAnd_endsOk_iff.mp verified
  have settled : ∀ rule ∈ Policy.internal.rules, ∃ verdict : Verdict,
      rule.demand ctx' = .settled (.ok verdict) := by
    intro rule hrule
    by_cases hcontent : rule ∈ chainContentRules
    · exact chainContentRules_settled ctx' rule hcontent
    · obtain ⟨verdict, hdemand, -⟩ :=
        Context.holds_of_prepend plain consistent made document level hrule hcontent
      exact ⟨verdict, hdemand⟩
  obtain ⟨outcome, houtcome⟩ := exists_run_of_settled goes settled
  have hends : Policy.internal.EndsOk ctx' run run ↔ outcome.state = .ok := by
    simp [EndsOk, houtcome]
  refine ⟨outcome, houtcome, ?_⟩
  rw [← hends, Policy.internal, internalAnd_endsOk_iff,
    ← Context.chainContent_of_prepend_iff plain consistent made]
  refine ⟨?_, ?_⟩
  · rintro ⟨-, consistent', -⟩ rule hrule
    refine consistent' rule ?_
    revert rule
    decide
  · intro hcontent
    refine ⟨goes, fun rule hrule => ?_, rfl⟩
    by_cases hrule' : rule ∈ chainContentRules
    · exact hcontent rule hrule'
    · exact Context.holds_of_prepend plain consistent made document level hrule hrule'

theorem lowerStorey_isSoundAt : Signature.lowerStorey.IsSoundAt (.ofUInt32 1000) where
  algorithm := rfl
  inputAlgorithm := rfl
  identities := by
    have ok : Policy.internal.EndsOk (twoStoreyContext (.ofUInt32 0)) (.start []) _ :=
      Policy.endsOk_of_state (by decide +kernel)
    obtain ⟨-, consistent, -⟩ := Policy.internalAnd_endsOk_iff.mp ok
    exact consistent.isTrustworthy _ (List.head_mem _)

/-- The upper storey with the lower one below it is accepted for the lower one's input. -/
theorem Policy.internal_run_of_prepend_lowerStorey :
    ∃ s, (Signature.upperStorey 7).prepend Signature.lowerStorey = .ok s ∧
      ∃ outcome, Policy.internal.run
          { Context.ofSignature s with documentHash := some Signature.lowerStorey.inputHash }
          (.start []) = (.ok outcome, .start []) ∧ outcome.state = .ok := by
  have fits : ((Signature.upperStorey 7).prepend Signature.lowerStorey).isOk = true := by
    decide +kernel
  obtain ⟨s, hs⟩ := exists_of_isOk fits
  have verified : Policy.internal.EndsOk (Context.ofSignature (Signature.upperStorey 7))
      (.start []) _ := endsOk_of_state (by decide +kernel)
  have decided : ∃ outcome, Policy.internal.run
      { Context.ofSignature s with documentHash := some Signature.lowerStorey.inputHash }
      (.start []) = (.ok outcome, .start []) ∧
        (outcome.state = .ok ↔ Signature.lowerStorey.IsSoundAt (.ofUInt32 1000)) :=
    Policy.internal_run_of_prepend rfl verified hs rfl rfl rfl
  obtain ⟨outcome, houtcome, hstate⟩ := decided
  exact ⟨s, hs, outcome, houtcome, hstate.mpr lowerStorey_isSoundAt⟩

end Keyless
