/-
What keeps a rule from a verdict.

A rule that folds chains comes to no verdict when the fold fails, and then the whole
verification ends.  Which faults there are depends on whose chains they are.  The chains
of a signature were checked when it was put together, so their steps have all they need,
and what remains are the two ways in which they can be too much: the stack too high for
its levels, and a chain too long for an index element (`Signature.Overflows`).  A chain
that the service delivered was not checked by anyone, so it may have a sibling of an
algorithm without a function (`CalendarChain.Lacks`).  A rule meets no other faults
(`Rule.faultsKnown_demand`).
-/
import Keyless.Proofs.Aggregation.Height
import Keyless.Proofs.Aggregation.Index
import Keyless.Proofs.Calendar.Binding
import Keyless.Verification.Evaluation

namespace Keyless

/-! ### Calendar chains and the legacy record -/

namespace CalendarChain

/-- The fault is that of a sibling whose algorithm has no function. -/
def Lacks (c : CalendarChain) (fault : ChainError) : Prop :=
  ∃ link ∈ c.links, link.sibling.algorithm.isImplemented = false ∧
    fault = .notImplemented link.sibling.algorithm

/-- Links that cannot be climbed have such a sibling. -/
theorem exists_of_climbCalendar_error {links : List CalendarLink} :
    ∀ {running : Imprint} {fault : ChainError}, climbCalendar running links = .error fault →
      ∃ link ∈ links, link.sibling.algorithm.isImplemented = false ∧
        fault = .notImplemented link.sibling.algorithm := by
  induction links with
  | nil =>
      intro running fault h
      exact absurd h (by simp [climbCalendar])
  | cons link rest ih =>
      intro running fault h
      rcases bind_eq_error_iff.mp h with hfailed | ⟨next, -, hrest⟩
      · exact ⟨link, List.mem_cons_self, HashAlgorithm.hash_eq_error_iff.mp hfailed⟩
      · obtain ⟨lacking, hmem, hlacks⟩ := ih hrest
        exact ⟨lacking, List.mem_cons_of_mem link hmem, hlacks⟩

theorem lacks_of_output {c : CalendarChain} {fault : ChainError} (h : c.output = .error fault) :
    c.Lacks fault :=
  exists_of_climbCalendar_error h

/-- A chain that was checked leads somewhere. -/
theorem exists_output {c : CalendarChain} (sound : c.check = .ok ()) :
    ∃ root, c.output = .ok root := by
  cases houtput : c.output with
  | ok root => exact ⟨root, rfl⟩
  | error fault =>
      obtain ⟨link, hlink, hlacks, -⟩ := lacks_of_output houtput
      obtain ⟨-, hlinks⟩ := check_bind_eq_ok_iff.mp sound
      have himplemented := forM_eq_ok_iff.mp hlinks link hlink
      exact absurd himplemented (by simp [HashAlgorithm.requireImplemented, hlacks])

end CalendarChain

/-- So does a legacy record. -/
theorem TimestampRecord.exists_output {r : TimestampRecord} (sound : r.check = .ok ()) :
    ∃ hash, r.output = .ok hash := by
  obtain ⟨hinfo, hattributes⟩ := check_bind_eq_ok_iff.mp sound
  obtain ⟨info, hhash⟩ :=
    HashAlgorithm.exists_hash hinfo (r.infoPrefix ++ r.inputHash.digest ++ r.infoSuffix)
  obtain ⟨attributes, houtput⟩ :=
    HashAlgorithm.exists_hash hattributes (r.attributesPrefix ++ info.digest ++ r.attributesSuffix)
  exact ⟨attributes, bind_eq_ok_iff.mpr ⟨info, hhash, houtput⟩⟩

/-! ### Indexes -/

/-- The fault is that a chain is too long for an index element. -/
def TooLong (chains : List AggregationChain) (fault : ChainError) : Prop :=
  ∃ c ∈ chains, 64 ≤ c.links.length ∧ fault = .computation (.indexTooLong c.links.length)

theorem TooLong.cons {chains : List AggregationChain} {fault : ChainError}
    (h : TooLong chains fault) (chain : AggregationChain) : TooLong (chain :: chains) fault := by
  obtain ⟨c, hc, hlong⟩ := h
  exact ⟨c, List.mem_cons_of_mem chain hc, hlong⟩

theorem tooLong_of_indexVerdict {chains : List AggregationChain} {fault : ChainError} :
    indexVerdict chains = .error fault → TooLong chains fault := by
  induction chains with
  | nil =>
      intro h
      exact absurd h (by simp [indexVerdict])
  | cons chain rest ih =>
      intro h
      rcases Verdict.step_eq_error_iff.mp h with hfailed | ⟨element, -, -, hrest⟩
      · exact ⟨chain, List.mem_cons_self, AggregationChain.indexElement_eq_error_iff.mp hfailed⟩
      · exact (ih hrest).cons chain

theorem tooLong_of_indexSuccessorVerdict {chains : List AggregationChain} {fault : ChainError} :
    indexSuccessorVerdict chains = .error fault → TooLong chains fault := by
  induction chains with
  | nil =>
      intro h
      exact absurd h (by simp [indexSuccessorVerdict])
  | cons lower rest ih =>
      intro h
      cases rest with
      | nil => exact absurd h (by simp [indexSuccessorVerdict])
      | cons upper others =>
          rw [indexSuccessorVerdict, Verdict.step_eq_error_iff] at h
          rcases h with hfailed | ⟨element, -, -, hrest⟩
          · exact ⟨lower, List.mem_cons_self, AggregationChain.indexElement_eq_error_iff.mp hfailed⟩
          · exact (ih hrest).cons lower

/-! ### The signature's own chains -/

namespace Signature

/-- The chains are too much for their levels, or one of them for an index element. -/
inductive Overflows (s : Signature) : ChainError → Prop where
  | tooHigh (position : Nat) (high : maxLevel < stackHeight s.chains) :
      Overflows s (.computation (.levelExceeded position))
  | tooLong {chain : AggregationChain} (mem : chain ∈ s.chains) (long : 64 ≤ chain.links.length) :
      Overflows s (.computation (.indexTooLong chain.links.length))

variable {s : Signature} {fault : ChainError}

theorem overflows_of_high (high : maxLevel < 0 + stackHeight s.chains)
    (level : ∃ position, fault = .computation (.levelExceeded position)) : s.Overflows fault := by
  obtain ⟨position, rfl⟩ := level
  exact .tooHigh position (by omega)

theorem overflows_of_tooLong (h : TooLong s.chains fault) : s.Overflows fault := by
  obtain ⟨chain, hmem, hlong, rfl⟩ := h
  exact .tooLong hmem hlong

theorem overflows_of_rootHash (h : s.rootHash = .error fault) : s.Overflows fault := by
  obtain ⟨hhigh, hlevel⟩ := s.aggregateOutput_climbs.fault_eq (bind_pure_eq_error_iff.mp h)
  exact overflows_of_high hhigh hlevel

theorem overflows_of_consistencyVerdict (h : consistencyVerdict 0 s.chains = .error fault) :
    s.Overflows fault := by
  have hleaves : (0 : UInt64).toNat ≤ maxLevel := Nat.zero_le _
  obtain ⟨hhigh, hlevel⟩ := consistencyVerdict_fault s.check_of_mem_chains hleaves h
  exact overflows_of_high hhigh hlevel

/-- The signature's own calendar chain leads somewhere. -/
theorem exists_output_of_calendarChain {calendar : CalendarChain}
    (own : s.calendarChain = some calendar) : ∃ root, calendar.output = .ok root :=
  CalendarChain.exists_output
    ((SignatureParts.check_eq_ok_iff.mp s.check_parts).2.2.1 calendar own)

/-- A verdict about the calendar chain is reached unless the check of the chain fails. -/
theorem calendarVerdict_fault {check : CalendarChain → Except ChainError Bool}
    (h : s.calendarVerdict check = .error fault) :
    ∃ calendar, s.calendarChain = some calendar ∧ check calendar = .error fault := by
  unfold calendarVerdict at h
  cases hcalendar : s.calendarChain with
  | none => simp [hcalendar] at h
  | some calendar =>
      rw [hcalendar] at h
      exact ⟨calendar, rfl, bind_pure_eq_error_iff.mp h⟩

/-- So is one about a record of the calendar root. -/
theorem recordVerdict_fault {root : Option PublicationData}
    {check : CalendarChain → PublicationData → Except ChainError Bool}
    (h : s.recordVerdict root check = .error fault) :
    ∃ calendar data, s.calendarChain = some calendar ∧ check calendar data = .error fault := by
  unfold recordVerdict at h
  cases hcalendar : s.calendarChain with
  | none => simp [hcalendar] at h
  | some calendar =>
      cases hroot : root with
      | none => simp [hcalendar, hroot] at h
      | some data =>
          rw [hcalendar, hroot] at h
          exact ⟨calendar, data, rfl, bind_pure_eq_error_iff.mp h⟩

theorem timestampOutputVerdict_ne_error (s : Signature) (fault : ChainError) :
    s.timestampOutputVerdict ≠ .error fault := by
  intro h
  unfold timestampOutputVerdict at h
  cases hrecord : s.timestampRecord with
  | none => simp [hrecord] at h
  | some record =>
      rw [hrecord] at h
      have sound := (SignatureParts.check_eq_ok_iff.mp s.check_parts).2.2.2.1 record hrecord
      obtain ⟨output, houtput⟩ := TimestampRecord.exists_output sound
      exact absurd (bind_pure_eq_error_iff.mp h) (by simp [houtput])

theorem overflows_of_calendarInputVerdict (h : s.calendarInputVerdict = .error fault) :
    s.Overflows fault := by
  obtain ⟨calendar, -, hcheck⟩ := calendarVerdict_fault h
  exact overflows_of_rootHash (bind_pure_eq_error_iff.mp hcheck)

/-- A record of the calendar root is held against a root that there is. -/
theorem recordHashVerdict_ne_error (s : Signature) (root : Option PublicationData)
    (fault : ChainError) : s.recordHashVerdict root ≠ .error fault := by
  intro h
  obtain ⟨calendar, data, hcalendar, hcheck⟩ := recordVerdict_fault h
  obtain ⟨output, houtput⟩ := exists_output_of_calendarChain hcalendar
  exact absurd (bind_pure_eq_error_iff.mp hcheck) (by simp [houtput])

end Signature

/-! ### What rules want -/

/-- What a rule wants fails only by the signature's chains, or by the chain that it judges. -/
def Demand.FaultsKnown (s : Signature) : Demand → Prop
  | .settled verdict => ∀ fault, verdict = .error fault → s.Overflows fault
  | .extended _ judge =>
    ∀ chain fault, judge chain = .error fault → s.Overflows fault ∨ chain.Lacks fault

namespace Context

variable (ctx : Context)

theorem faultsKnown_demandTarget {target : ExtensionTarget}
    {judge : PublicationData → CalendarChain → Except ChainError Verdict}
    (known : ∀ publication chain fault, judge publication chain = .error fault →
      ctx.signature.Overflows fault ∨ chain.Lacks fault) :
    (ctx.demandTarget target judge).FaultsKnown ctx.signature := by
  unfold demandTarget
  cases ctx.target? target with
  | none => exact fun fault h => absurd h (by simp)
  | some publication => exact known publication

theorem faultsKnown_demandTargetRoot (target : ExtensionTarget) :
    (ctx.demandTargetRoot target).FaultsKnown ctx.signature := by
  refine ctx.faultsKnown_demandTarget fun publication chain fault h => Or.inr ?_
  exact CalendarChain.lacks_of_output (bind_pure_eq_error_iff.mp h)

theorem faultsKnown_demandTargetTime (target : ExtensionTarget) :
    (ctx.demandTargetTime target).FaultsKnown ctx.signature :=
  ctx.faultsKnown_demandTarget fun _ _ _ h => absurd h (by simp)

/-- Where a chain begins is held against the root of the signature's round. -/
theorem overflows_of_judgeInput {chain : CalendarChain} {fault : ChainError}
    (h : ctx.judgeInput chain = .error fault) : ctx.signature.Overflows fault :=
  Signature.overflows_of_rootHash (bind_pure_eq_error_iff.mp h)

theorem faultsKnown_demandTargetInput (target : ExtensionTarget) :
    (ctx.demandTargetInput target).FaultsKnown ctx.signature :=
  ctx.faultsKnown_demandTarget fun _ _ _ h => Or.inl (ctx.overflows_of_judgeInput h)

theorem faultsKnown_demandDatabaseRoot : ctx.demandDatabaseRoot.FaultsKnown ctx.signature := by
  unfold demandDatabaseRoot
  cases hcalendar : ctx.signature.calendarChain with
  | none => exact fun fault h => absurd h (by simp)
  | some calendar =>
      intro chain fault h
      obtain ⟨ours, hours⟩ := Signature.exists_output_of_calendarChain hcalendar
      rcases bind_eq_error_iff.mp h with hfailed | ⟨theirs, -, hrest⟩
      · exact Or.inr (CalendarChain.lacks_of_output hfailed)
      · exact absurd (bind_pure_eq_error_iff.mp hrest) (by simp [hours])

end Context

/-- **No rule is kept from a verdict by anything else.** -/
theorem Rule.faultsKnown_demand (rule : Rule) (ctx : Context) :
    (rule.demand ctx).FaultsKnown ctx.signature := by
  cases rule with
  | aggregationChainInputHash =>
      exact fun fault h => absurd h (ctx.signature.timestampOutputVerdict_ne_error fault)
  | aggregationChainIndexSuccessor =>
      exact fun fault h => Signature.overflows_of_tooLong (tooLong_of_indexSuccessorVerdict h)
  | aggregationChainConsistency =>
      exact fun fault h => Signature.overflows_of_consistencyVerdict h
  | aggregationChainIndex =>
      exact fun fault h => Signature.overflows_of_tooLong (tooLong_of_indexVerdict h)
  | calendarInputHash => exact fun fault h => Signature.overflows_of_calendarInputVerdict h
  | calendarAggregationTime | calendarRegistrationTime | calendarAlgorithmObsolete =>
      intro fault h
      obtain ⟨calendar, -, hcheck⟩ := Signature.calendarVerdict_fault h
      exact absurd hcheck (by simp)
  | publicationRecordTime | authenticationRecordTime =>
      intro fault h
      obtain ⟨calendar, data, -, hcheck⟩ := Signature.recordVerdict_fault h
      exact absurd hcheck (by simp)
  | publicationRecordHash | authenticationRecordHash =>
      exact fun fault h => absurd h (ctx.signature.recordHashVerdict_ne_error _ fault)
  | extendedToLookupRootHash => exact ctx.faultsKnown_demandTargetRoot .lookup
  | extendedToLookupTime => exact ctx.faultsKnown_demandTargetTime .lookup
  | extendedToLookupInputHash => exact ctx.faultsKnown_demandTargetInput .lookup
  | extendedToUserRootHash => exact ctx.faultsKnown_demandTargetRoot .user
  | extendedToUserTime => exact ctx.faultsKnown_demandTargetTime .user
  | extendedToUserInputHash => exact ctx.faultsKnown_demandTargetInput .user
  | calendarExtendedRootHash => exact ctx.faultsKnown_demandDatabaseRoot
  | calendarExtendedInputHash =>
      exact fun chain fault h => Or.inl (ctx.overflows_of_judgeInput h)
  | calendarExtendedAggregationTime =>
      exact fun chain fault h => absurd h (by simp [Context.judgeTime])
  | _ => exact fun fault h => absurd h (by simp)

end Keyless
