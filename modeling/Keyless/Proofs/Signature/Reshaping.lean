/-
What is left of a signature after any number of reshapings.

Chains are put below a signature, levels are applied to it, and it is extended, one
after another in any order; a step that fails leaves it as it is.  Each step changes a
part of its own and leaves the others alone, but for one place where they meet: the
correction of the first link, which levels raise and new chains lower, and which sits on
another chain each time that a chain is put below.

So the invariant (`Signature.StemsFrom`) does not say what the correction is, on
whichever chain.  The original chains stand at the top, up to the one correction that the
original signature had at its first link, and what stands below them are the new chains,
each of the original round and each following on from the one above it.  It says more of
the fold, which sees the corrections: putting chains below leaves it as it is, so it
changes only when a level has been applied.
-/
import Keyless.Proofs.Extension
import Keyless.Proofs.Signature.Prepending

namespace Keyless

/-! ### Corrections changed again and again -/

section Correction

variable {chains : List AggregationChain} (correction : UInt64)

theorem setFirstCorrection_setFirstCorrection (earlier : UInt64) :
    setFirstCorrection correction (setFirstCorrection earlier chains) =
      setFirstCorrection correction chains := by
  cases chains with
  | nil => rfl
  | cons lowest rest =>
      obtain ⟨_, _, _, links, _⟩ := lowest
      cases links <;> rfl

/-- Chains have a correction at their first link, or none that could be changed. -/
theorem exists_setFirstCorrection_eq (chains : List AggregationChain) :
    ∃ correction, setFirstCorrection correction chains = chains := by
  cases chains with
  | nil => exact ⟨0, rfl⟩
  | cons lowest rest =>
      obtain ⟨_, _, _, links, _⟩ := lowest
      cases links with
      | nil => exact ⟨0, rfl⟩
      | cons first others => exact ⟨first.levelCorrection, rfl⟩

theorem take_setFirstCorrection (count : Nat) :
    (setFirstCorrection correction chains).take count =
      setFirstCorrection correction (chains.take count) := by
  cases chains <;> cases count <;> rfl

theorem length_setFirstCorrection :
    (setFirstCorrection correction chains).length = chains.length := by
  cases chains <;> rfl

/-- Chains that stand at the top, up to the first correction among them, stand there still when the
lowest correction of all is changed. -/
theorem exists_drop_setFirstCorrection {count : Nat} {top : List AggregationChain}
    (above : ∃ c, chains.drop count = setFirstCorrection c top) :
    ∃ c, (setFirstCorrection correction chains).drop count = setFirstCorrection c top := by
  obtain ⟨c, hdrop⟩ := above
  cases count with
  | zero =>
      -- There are no chains below, so it is the original first link that changes again.
      rw [List.drop_zero] at hdrop
      exact ⟨correction, by
        rw [List.drop_zero, hdrop, setFirstCorrection_setFirstCorrection]⟩
  | succ count =>
      refine ⟨c, ?_⟩
      rw [← hdrop]
      cases chains <;> rfl

end Correction

/-! ### Steps -/

/-- A signature made from a signature. -/
inductive Reshaping where
  | prepend (chain : AggregationChain)
  | applyLevel (level : UInt64)
  /-- Extended by any service, which has had any requests before. -/
  | extend (extender : Extender) (publication : PublicationRecord) (log : List ExtensionRequest)

namespace Reshaping

/-- The signature that is made, if it can be. -/
def apply (s : Signature) : Reshaping → Except ChainError Signature
  | prepend chain => s.prepend chain
  | applyLevel level => s.applyLevel level
  | extend extender publication log => (s.extend extender publication log).1

/-- Whether a chain is put below. -/
def isPrepend : Reshaping → Bool
  | prepend _ => true
  | _ => false

end Reshaping

namespace Signature

/-- What steps make of a signature one after another; a step that fails leaves it as it is. -/
def reshaped (s : Signature) : List Reshaping → Signature
  | [] => s
  | step :: rest =>
    match step.apply s with
    | .ok s' => s'.reshaped rest
    | .error _ => s.reshaped rest

/-- The steps that succeed. -/
def successes (s : Signature) : List Reshaping → List Reshaping
  | [] => []
  | step :: rest =>
    match step.apply s with
    | .ok s' => step :: s'.successes rest
    | .error _ => s.successes rest

/-- A signature that comes of another one by steps that succeeded. -/
structure StemsFrom (s origin : Signature) (steps : List Reshaping) : Prop where
  /-- Its parts make a signature. -/
  accepted : ofParts s.parts = .ok s
  aggregationTime : s.aggregationTime = origin.aggregationTime
  timestampRecord : s.timestampRecord = origin.timestampRecord
  /-- There is a new chain for each time that one was put below. -/
  length : s.chains.length = steps.countP Reshaping.isPrepend + origin.chains.length
  /-- The original chains stand above the new ones, up to the correction of their first link. -/
  above : ∃ correction, s.chains.drop (steps.countP Reshaping.isPrepend) =
    setFirstCorrection correction origin.chains
  /-- The new chains are of the original round. -/
  times : ∀ c ∈ s.chains.take (steps.countP Reshaping.isPrepend),
    c.aggregationTime = origin.aggregationTime
  /-- Each new chain's index is the one of the chain above it, and behind it the element that its
  own links stand for. -/
  indexes : (s.chains.take (steps.countP Reshaping.isPrepend + 1)).IsChain AggregationChain.Succeeds
  /-- The original calendar's past is kept. -/
  past : ∀ own, origin.calendarChain = some own →
    ∃ c, s.calendarChain = some c ∧ own.rightSiblings <+: c.rightSiblings
  /-- There is one record of the calendar root at most. -/
  records : s.authenticationRecord = none ∨ s.publicationRecord = none
  /-- The chains fold to what they folded to, unless levels have been applied. -/
  fold : (∀ level, Reshaping.applyLevel level ∈ steps → level = 0) →
    aggregateOutput s.chains = aggregateOutput origin.chains

/-! ### What a step preserves -/

variable {s s' origin : Signature} {steps : List Reshaping}

theorem accepted_parts (s : Signature) : ofParts s.parts = .ok s := ofParts_eq_ok_iff.mpr rfl

theorem aggregationTime_of_setFirstCorrection {correction : UInt64}
    (h : s'.chains = setFirstCorrection correction s.chains) :
    s'.aggregationTime = s.aggregationTime := by
  rw [s.chains_eq_cons, setFirstCorrection] at h
  rw [Signature.aggregationTime, lowestChain_of_chains h]
  rfl

theorem record_eq_none (s : Signature) :
    s.authenticationRecord = none ∨ s.publicationRecord = none :=
  (SignatureParts.checkRecords_eq_ok_iff.mp
    (SignatureParts.check_eq_ok_iff.mp s.check_parts).2.2.2.2).2

/-- **All that applying a level asks for, and all that it gives.** -/
theorem applyLevel_eq_ok_iff {level : UInt64} :
    s.applyLevel level = .ok s' ↔
      (level = 0 ∧ s' = s) ∨
      (level ≠ 0 ∧ ∃ correction, addWithin64? s.firstCorrection level = some correction ∧
        s'.parts = { s.parts with chains := setFirstCorrection correction s.chains }) := by
  unfold applyLevel
  by_cases hzero : level = 0
  · simp [hzero, eq_comm]
  · cases addWithin64? s.firstCorrection level with
    | none => simp [hzero]
    | some correction => simp [hzero, ofParts_eq_ok_iff]

namespace StemsFrom

theorem refl (s : Signature) : s.StemsFrom s [] where
  accepted := s.accepted_parts
  aggregationTime := rfl
  timestampRecord := rfl
  length := by simp
  above := by
    obtain ⟨correction, hsame⟩ := exists_setFirstCorrection_eq s.chains
    exact ⟨correction, by simp [hsame]⟩
  times := by simp
  indexes := by
    rw [s.chains_eq_cons]
    exact List.isChain_singleton _
  past := fun own hown => ⟨own, hown, List.prefix_rfl⟩
  records := s.record_eq_none
  fold := fun _ => rfl

/-- Steps that put no chain below, and change no more of the chains than the first correction. -/
theorem keep (h : s.StemsFrom origin steps) {step : Reshaping} (other : step.isPrepend = false)
    (chains : ∃ correction, s'.chains = setFirstCorrection correction s.chains)
    (timestamp : s'.timestampRecord = s.timestampRecord)
    (past : ∀ own, s.calendarChain = some own →
      ∃ c, s'.calendarChain = some c ∧ own.rightSiblings <+: c.rightSiblings)
    (fold : (∀ level, step = .applyLevel level → level = 0) →
      aggregateOutput s'.chains = aggregateOutput s.chains) :
    s'.StemsFrom origin (steps ++ [step]) := by
  obtain ⟨correction, hchains⟩ := chains
  have hcount : (steps ++ [step]).countP Reshaping.isPrepend =
      steps.countP Reshaping.isPrepend := by
    simp [other]
  refine
    { accepted := s'.accepted_parts
      aggregationTime :=
        (aggregationTime_of_setFirstCorrection hchains).trans h.aggregationTime
      timestampRecord := timestamp.trans h.timestampRecord
      length := ?_, above := ?_, times := ?_, indexes := ?_, past := ?_
      records := s'.record_eq_none
      fold := ?_ }
  · rw [hcount, hchains, length_setFirstCorrection, h.length]
  · rw [hcount, hchains]
    exact exists_drop_setFirstCorrection correction h.above
  · rw [hcount, hchains, take_setFirstCorrection]
    exact (forall_mem_setFirstCorrection fun _ => Iff.rfl).mpr h.times
  · rw [hcount, hchains, take_setFirstCorrection]
    exact isChain_setFirstCorrection h.indexes
  · intro own hown
    obtain ⟨middle, hmiddle, hprefix⟩ := h.past own hown
    obtain ⟨c, hc, hprefix'⟩ := past middle hmiddle
    exact ⟨c, hc, hprefix.trans hprefix'⟩
  · intro unapplied
    rw [fold fun level hlevel => unapplied level (by simp [hlevel])]
    exact h.fold fun level hlevel => unapplied level (List.mem_append_left _ hlevel)

/-- A chain put below takes its time and its index from the lowest one, which is then above it. -/
theorem prepend (h : s.StemsFrom origin steps) {chain : AggregationChain}
    (made : s.prepend chain = .ok s') : s'.StemsFrom origin (steps ++ [.prepend chain]) := by
  obtain ⟨top, element, output, fits, -, index, hchains⟩ := chains_of_prepend made
  obtain ⟨hcalendar, -, -, htimestamp⟩ := others_of_prepend made
  have hcount : (steps ++ [Reshaping.prepend chain]).countP Reshaping.isPrepend =
      steps.countP Reshaping.isPrepend + 1 := by
    simp [Reshaping.isPrepend]
  refine
    { accepted := s'.accepted_parts
      aggregationTime := (aggregationTime_of_prepend made).trans h.aggregationTime
      timestampRecord := htimestamp.trans h.timestampRecord
      length := ?_, above := ?_, times := ?_, indexes := ?_, past := ?_
      records := s'.record_eq_none
      fold := ?_ }
  · rw [hcount, hchains, List.length_cons, length_setFirstCorrection, h.length]
    omega
  · rw [hcount, hchains, List.drop_succ_cons]
    exact exists_drop_setFirstCorrection _ h.above
  · rw [hcount, hchains, List.take_succ_cons, List.forall_mem_cons, take_setFirstCorrection]
    exact ⟨h.aggregationTime, (forall_mem_setFirstCorrection fun _ => Iff.rfl).mpr h.times⟩
  · have hindexes := h.indexes
    rw [s.chains_eq_cons, List.take_succ_cons] at hindexes
    rw [hcount, hchains, List.take_succ_cons, take_setFirstCorrection, s.chains_eq_cons,
      List.take_succ_cons]
    exact s.isChain_lowered index hindexes
  · rw [hcalendar]
    exact h.past
  · intro unapplied
    rw [hchains, s.aggregateOutput_lowered output fits]
    exact h.fold fun level hlevel => unapplied level (List.mem_append_left _ hlevel)

theorem applyLevel (h : s.StemsFrom origin steps) {level : UInt64}
    (made : s.applyLevel level = .ok s') : s'.StemsFrom origin (steps ++ [.applyLevel level]) := by
  have hpast : ∀ own, s.calendarChain = some own →
      ∃ c, s.calendarChain = some c ∧ own.rightSiblings <+: c.rightSiblings :=
    fun own hown => ⟨own, hown, List.prefix_rfl⟩
  rcases applyLevel_eq_ok_iff.mp made with ⟨-, rfl⟩ | ⟨happlied, correction, -, hparts⟩
  · obtain ⟨correction, hsame⟩ := exists_setFirstCorrection_eq s'.chains
    exact h.keep rfl ⟨correction, hsame.symm⟩ rfl hpast fun _ => rfl
  · have hchains := chains_of_parts hparts
    have htimestamp : s'.timestampRecord = s.timestampRecord := by
      rw [Signature.timestampRecord, hparts]
      rfl
    have hcalendar : s'.calendarChain = s.calendarChain := by
      rw [calendarChain, hparts]
      rfl
    exact h.keep rfl ⟨correction, hchains⟩ htimestamp (hcalendar ▸ hpast)
      fun unapplied => absurd (unapplied level rfl) happlied

theorem extend (h : s.StemsFrom origin steps) {extender : Extender}
    {publication : PublicationRecord} {log : List ExtensionRequest}
    (made : (s.extend extender publication log).1 = .ok s') :
    s'.StemsFrom origin (steps ++ [.extend extender publication log]) := by
  obtain ⟨-, _, -, -, chain, -, hagrees, hparts⟩ := extend_eq_ok_iff.mp (Prod.ext made rfl)
  obtain ⟨correction, hsame⟩ := exists_setFirstCorrection_eq s.chains
  have hchains : s'.chains = s.chains := by
    rw [chains, hparts]
    rfl
  have htimestamp : s'.timestampRecord = s.timestampRecord := by
    rw [Signature.timestampRecord, hparts]
    rfl
  have hcalendar : s'.calendarChain = some chain := by
    rw [calendarChain, hparts]
    rfl
  exact h.keep rfl ⟨correction, hchains.trans hsame.symm⟩ htimestamp
    (fun own hown => ⟨chain, hcalendar, agreesWith_iff.mp hagrees own hown⟩)
    fun _ => by rw [hchains]

/-- **What one step preserves.** -/
theorem step (h : s.StemsFrom origin steps) {step : Reshaping} (made : step.apply s = .ok s') :
    s'.StemsFrom origin (steps ++ [step]) := by
  cases step with
  | prepend chain => exact h.prepend made
  | applyLevel level => exact h.applyLevel made
  | extend extender publication log => exact h.extend made

/-- What a run preserves, begun anywhere on the way. -/
theorem run (rest : List Reshaping) :
    ∀ {s : Signature} {steps : List Reshaping}, s.StemsFrom origin steps →
      (s.reshaped rest).StemsFrom origin (steps ++ s.successes rest) := by
  induction rest with
  | nil =>
      intro s steps h
      rw [successes, List.append_nil]
      exact h
  | cons step rest ih =>
      intro s steps h
      rw [reshaped, successes]
      cases hmade : step.apply s with
      | error cause => exact ih h
      | ok s' =>
          have hrest := ih (h.step hmade)
          rwa [List.append_assoc] at hrest

end StemsFrom

/--
**Invariants of any reshaping run.**  Whatever chains are put below a signature, whatever
levels are applied to it and however it is extended, in any order and with any service,
the signature at the end stems from the one at the start by the steps that succeeded.
-/
theorem reshaped_stemsFrom (origin : Signature) (steps : List Reshaping) :
    (origin.reshaped steps).StemsFrom origin (origin.successes steps) :=
  (StemsFrom.refl origin).run steps

/-- A chain fits into the levels that a document above the leaves has made room for, and does not
fit a second time. -/
example :
    ((upperStorey 0).successes [.prepend lowerStorey, .applyLevel 3, .prepend lowerStorey,
      .prepend lowerStorey]).map Reshaping.isPrepend = [false, true] := by
  decide +kernel

end Signature

end Keyless
