/-
What an ok of any built-in policy says of a signature.

Every built-in policy begins with the rules of internal consistency, and a chain of
policies ends in ok only when one of its policies does, so every ok stands for all of
those rules at once.  A rule that finds nothing to check is passed over.  The rules
about the legacy record, the calendar chain and the calendar root are therefore read
as statements about whatever is there, and a calendar root that is recorded has a
calendar chain to be compared with, because the check of a signature's parts saw to
that (`Signature.exists_calendarChain`).

The rule about the order of chains folds each chain from the level that those below
it reached, but never the topmost chain; where that one leads is asked only by the
rule about the calendar chain's input.
-/
import Keyless.Extension.Script
import Keyless.Proofs.Aggregation.Binding

namespace Keyless

/-! ### Rules about what may be missing -/

namespace Signature

variable {s : Signature}

theorem timestampVerdict_isClear_iff {check : TimestampRecord → Bool} :
    (s.timestampVerdict check).IsClear ↔
      ∀ record, s.timestampRecord = some record → check record = true := by
  unfold timestampVerdict
  cases s.timestampRecord with
  | none => simp [Verdict.IsClear]
  | some record => simp

theorem timestampOutputVerdict_isClear_iff :
    (∃ verdict, s.timestampOutputVerdict = .ok verdict ∧ verdict.IsClear) ↔
      ∀ record, s.timestampRecord = some record → record.output = .ok s.lowestChain.inputHash := by
  unfold timestampOutputVerdict
  cases s.timestampRecord with
  | none => simp [Verdict.IsClear]
  | some record =>
      refine Verdict.exists_isClear_check_iff.trans ?_
      simp

theorem calendarVerdict_isClear_iff {check : CalendarChain → Except ChainError Bool} :
    (∃ verdict, s.calendarVerdict check = .ok verdict ∧ verdict.IsClear) ↔
      ∀ calendar, s.calendarChain = some calendar → check calendar = .ok true := by
  unfold calendarVerdict
  cases s.calendarChain with
  | none => simp [Verdict.IsClear]
  | some calendar =>
      refine Verdict.exists_isClear_check_iff.trans ?_
      simp

theorem check_of_recordVerdict {calendar : CalendarChain} {data : PublicationData}
    {check : CalendarChain → PublicationData → Except ChainError Bool}
    (has : s.calendarChain = some calendar)
    (clear : ∃ verdict, s.recordVerdict (some data) check = .ok verdict ∧ verdict.IsClear) :
    check calendar data = .ok true := by
  unfold recordVerdict at clear
  rw [has] at clear
  obtain ⟨passed, hpassed, hcheck⟩ := Verdict.exists_isClear_check_iff.mp clear
  rw [hpassed, hcheck]

/-- The calendar chain leads to the root, at its time. -/
def LeadsToRoot (s : Signature) (root : PublicationData) : Prop :=
  ∃ calendar, s.calendarChain = some calendar ∧
    calendar.publicationTime = root.publicationTime ∧
    calendar.output = .ok root.publishedHash

/-- A root that is recorded is the one that the calendar chain leads to, if the two rules about it
pass. -/
theorem leadsToRoot_of_recordVerdicts {root : PublicationData}
    (recorded : s.authenticationRecord ≠ none ∨ s.publicationRecord ≠ none)
    (time : ∃ verdict, s.recordTimeVerdict (some root) = .ok verdict ∧ verdict.IsClear)
    (hash : ∃ verdict, s.recordHashVerdict (some root) = .ok verdict ∧ verdict.IsClear) :
    s.LeadsToRoot root := by
  obtain ⟨calendar, has⟩ := s.exists_calendarChain recorded
  have htime := Except.ok.inj (check_of_recordVerdict has time)
  obtain ⟨output, houtput, hhash⟩ := bind_pure_eq_ok_iff.mp (check_of_recordVerdict has hash)
  rw [decide_eq_true_eq] at htime hhash
  exact ⟨calendar, has, htime.symm, by rw [houtput, hhash]⟩

end Signature

/-! ### What the rules say together -/

namespace Context

/-- A signature that is consistent in itself, and with what the caller knows of the document. -/
structure IsCoherent (ctx : Context) : Prop where
  /-- The document that the caller has is the one that was signed. -/
  document : ∀ hash, ctx.documentHash = some hash → hash = ctx.signature.inputHash
  /-- The first link leaves room for the document's level. -/
  level : ctx.inputLevel ≤ ctx.signature.firstLink.levelCorrection
  /-- The chains join, from the leaf upwards. -/
  chains : FoldsTogether 0 ctx.signature.chains
  /-- All chains belong to one round. -/
  times : ∀ chain ∈ ctx.signature.chains, chain.aggregationTime = ctx.signature.aggregationTime
  /-- A legacy record leads to the lowest chain, at its index and time. -/
  timestamp : ∀ record, ctx.signature.timestampRecord = some record →
    record.output = .ok ctx.signature.lowestChain.inputHash ∧
    record.index = ctx.signature.lowestChain.index ∧
    record.aggregationTime = ctx.signature.lowestChain.aggregationTime
  /-- A calendar chain begins at the root of the round, at its time, and its shape says so. -/
  calendar : ∀ calendar, ctx.signature.calendarChain = some calendar →
    (∃ root, aggregateOutput ctx.signature.chains = .ok root ∧ root.hash = calendar.inputHash) ∧
    calendar.aggregationTime = ctx.signature.aggregationTime ∧
    calendar.registrationTime = .ok ctx.signature.aggregationTime
  /-- The calendar chain leads to the root that was published. -/
  published : ∀ record, ctx.signature.publicationRecord = some record →
    ctx.signature.LeadsToRoot record.publicationData
  /-- The calendar chain leads to the root that was signed. -/
  authenticated : ∀ record, ctx.signature.authenticationRecord = some record →
    ctx.signature.LeadsToRoot record.publicationData

namespace IsConsistent

variable {ctx : Context}

theorem isClear (h : ctx.IsConsistent) (rule : Rule) (internal : rule ∈ Policy.internalRules)
    {verdict : Verdict} (asks : rule.demand ctx = .settled (.ok verdict)) : verdict.IsClear :=
  (Rule.holds_iff_of_settled asks).mp (h rule internal)

theorem documentHash_eq (h : ctx.IsConsistent) {hash : Imprint}
    (has : ctx.documentHash = some hash) : hash = ctx.signature.inputHash := by
  have clear := h.isClear .documentHash (by decide) rfl
  rw [documentHashVerdict, has] at clear
  simpa using clear

theorem inputLevel_le (h : ctx.IsConsistent) :
    ctx.inputLevel ≤ ctx.signature.firstLink.levelCorrection := by
  have clear := h.isClear .inputHashLevel (by decide) rfl
  unfold inputLevelVerdict at clear
  by_cases hzero : ctx.inputLevel = 0
  · rw [hzero]
    exact UInt64.zero_le
  · rw [if_neg hzero] at clear
    simpa using clear

theorem aggregationTime_eq (h : ctx.IsConsistent) {chain : AggregationChain}
    (has : chain ∈ ctx.signature.chains) :
    chain.aggregationTime = ctx.signature.aggregationTime := by
  have clear := h.isClear .aggregationChainTime (by decide) rfl
  have hall := List.all_eq_true.mp (Verdict.isClear_ofCheck.mp clear) chain has
  simpa using hall

/-- **The rules of internal consistency make a signature coherent.** -/
theorem isCoherent (h : ctx.IsConsistent) : ctx.IsCoherent where
  document := fun _ has => h.documentHash_eq has
  level := h.inputLevel_le
  chains := consistencyVerdict_isClear_iff.mp
    (h.verdict .aggregationChainConsistency (by decide) rfl)
  times := fun _ has => h.aggregationTime_eq has
  timestamp := by
    intro record has
    have houtput := Signature.timestampOutputVerdict_isClear_iff.mp
      (h.verdict .aggregationChainInputHash (by decide) rfl)
    have hindex := Signature.timestampVerdict_isClear_iff.mp
      (h.isClear .timestampRecordIndex (by decide) rfl) record has
    have htime := Signature.timestampVerdict_isClear_iff.mp
      (h.isClear .timestampRecordTime (by decide) rfl) record has
    exact ⟨houtput record has, of_decide_eq_true hindex, of_decide_eq_true htime⟩
  calendar := by
    intro calendar has
    have hinput := Signature.calendarVerdict_isClear_iff.mp
      (h.verdict .calendarInputHash (by decide) rfl) calendar has
    have htime := Signature.calendarVerdict_isClear_iff.mp
      (h.verdict .calendarAggregationTime (by decide) rfl) calendar has
    have hshape := Signature.calendarVerdict_isClear_iff.mp
      (h.verdict .calendarRegistrationTime (by decide) rfl) calendar has
    obtain ⟨_, hroot, heq⟩ := bind_pure_eq_ok_iff.mp hinput
    obtain ⟨root, houtput, rfl⟩ := bind_pure_eq_ok_iff.mp hroot
    have htime : calendar.aggregationTime = ctx.signature.aggregationTime :=
      of_decide_eq_true (Except.ok.inj htime)
    have hshape := toOption_eq_some_iff.mp (of_decide_eq_true (Except.ok.inj hshape))
    rw [htime] at hshape
    exact ⟨⟨root, houtput, of_decide_eq_true heq⟩, htime, hshape⟩
  published := by
    intro record has
    have hroot : ctx.signature.publishedRoot = some record.publicationData := by
      rw [Signature.publishedRoot, has, Option.map_some]
    have htime := h.verdict .publicationRecordTime (by decide) rfl
    have hhash := h.verdict .publicationRecordHash (by decide) rfl
    rw [hroot] at htime hhash
    exact Signature.leadsToRoot_of_recordVerdicts (Or.inr (by simp [has])) htime hhash
  authenticated := by
    intro record has
    have hroot : ctx.signature.authenticatedRoot = some record.publicationData := by
      rw [Signature.authenticatedRoot, has, Option.map_some]
    have htime := h.verdict .authenticationRecordTime (by decide) rfl
    have hhash := h.verdict .authenticationRecordHash (by decide) rfl
    rw [hroot] at htime hhash
    exact Signature.leadsToRoot_of_recordVerdicts (Or.inl (by simp [has])) htime hhash

end IsConsistent

end Context

/-! ### Built-in policies -/

namespace PolicyChain

/-- Every policy of every built-in chain begins with the rules of internal consistency. -/
theorem exists_internalAnd_of_builtIn :
    ∀ chain ∈ builtIn, ∀ policy ∈ chain.policies,
      ∃ name further, policy = Policy.internalAnd name further := by
  simp only [builtIn, internal, keyBased, publicationsFile, publicationsFileExtending,
    userPublication, userPublicationExtending, calendarBased, standard, single, withFallback,
    policies, List.forall_mem_cons, List.not_mem_nil, false_implies, implies_true, and_true]
  exact ⟨⟨_, _, rfl⟩, ⟨_, _, rfl⟩, ⟨⟨_, _, rfl⟩, ⟨_, _, rfl⟩⟩, ⟨_, _, rfl⟩,
    ⟨⟨_, _, rfl⟩, ⟨_, _, rfl⟩⟩, ⟨_, _, rfl⟩, ⟨_, _, rfl⟩, ⟨_, _, rfl⟩, ⟨_, _, rfl⟩, ⟨_, _, rfl⟩⟩

/-- An ok of a built-in chain was given by a policy that has the internal rules. -/
theorem isConsistent_of_verify {chain : PolicyChain} (listed : chain ∈ builtIn) {ctx : Context}
    {run run' : Run} {result : VerificationResult}
    (verified : chain.verify ctx run = (.ok result, run')) (ok : result.state = .ok) :
    ctx.IsConsistent := by
  obtain ⟨policy, hpolicy, _, -, hends⟩ :=
    exists_endsOk_of_kept (P := fun _ => True) (fun _ _ h => h) trivial verified ok
  obtain ⟨name, further, rfl⟩ := exists_internalAnd_of_builtIn chain listed policy hpolicy
  exact (Policy.internalAnd_endsOk_iff.mp hends).2.1

/--
**Every ok of a built-in policy stands for internal consistency.**  Whichever policy of
the chain decided, and whatever it decided on, the signature is for the document, its
chains join and belong to one round, and what it has of a legacy record, a calendar
chain and a recorded calendar root fits to the chains and to each other.
-/
theorem isCoherent_of_verify {chain : PolicyChain} (listed : chain ∈ builtIn) {ctx : Context}
    {run run' : Run} {result : VerificationResult}
    (verified : chain.verify ctx run = (.ok result, run')) (ok : result.state = .ok) :
    ctx.IsCoherent :=
  (isConsistent_of_verify listed verified ok).isCoherent

end PolicyChain

/-! ### A signature with all parts -/

/-- A legacy record that leads to the chains of `anchoredSignature`. -/
def legacyRecord : TimestampRecord where
  aggregationTime := .ofUInt32 1
  index := [2, 3]
  inputHash := Imprint.uniform .sha256 0x11
  infoPrefix := [0x30]
  infoSuffix := [0x01]
  infoAlgorithm := .sha256
  attributesPrefix := [0x31]
  attributesSuffix := []
  attributesAlgorithm := .sha256

/-- Two storeys above the legacy record. -/
def anchoredStoreys : List AggregationChain :=
  [{ inputHash :=
       ⟨.sha256,
         [226, 85, 147, 23, 94, 9, 249, 211, 39, 223, 201, 115, 167, 215, 237, 243, 114, 31, 202,
           120, 1, 190, 48, 240, 130, 139, 90, 26, 200, 61, 124, 63], rfl⟩
     aggregationTime := .ofUInt32 1
     index := [2, 3]
     links :=
       [{ direction := .left
          sibling := .imprint (Imprint.uniform .sha512 0x22)
          levelCorrection := 1 }]
     algorithm := .sha256 },
    { inputHash :=
        ⟨.sha256,
          [202, 105, 83, 38, 170, 179, 68, 253, 21, 120, 3, 67, 218, 49, 213, 133, 202, 61, 79, 49,
            243, 207, 48, 86, 211, 201, 241, 126, 149, 94, 52, 111], rfl⟩
      aggregationTime := .ofUInt32 1
      index := [2]
      links :=
        [{ direction := .right
           sibling := .imprint (Imprint.uniform .sha1 0x33)
           levelCorrection := 0 }]
      algorithm := .sha256 }]

/-- The calendar from second 1 to a later second; there is one link for the past. -/
def calendarOfSecondOne (publicationTime : UInt32) (later : List CalendarLink) : CalendarChain where
  inputHash :=
    ⟨.sha256,
      [99, 238, 19, 119, 17, 154, 26, 153, 198, 90, 28, 136, 118, 195, 229, 214, 58, 158, 223, 120,
        247, 212, 81, 3, 54, 236, 148, 76, 245, 227, 196, 241], rfl⟩
  aggregationTime := .ofUInt32 1
  publicationTime := .ofUInt32 publicationTime
  links := { direction := .right, sibling := Imprint.uniform .sha256 0x44 } :: later

/-- The calendar root at second 1. -/
def rootOfSecondOne : PublicationData where
  publicationTime := .ofUInt32 1
  publishedHash :=
    ⟨.sha256,
      [20, 29, 160, 8, 184, 199, 11, 39, 191, 148, 175, 226, 139, 144, 178, 67, 108, 94, 14, 156, 6,
        12, 165, 81, 53, 106, 162, 46, 131, 233, 111, 134], rfl⟩

/-- A calendar root at second 3, above it. -/
def rootOfSecondThree : PublicationData where
  publicationTime := .ofUInt32 3
  publishedHash :=
    ⟨.sha256,
      [13, 48, 225, 240, 143, 36, 179, 16, 117, 144, 150, 116, 20, 237, 109, 205, 7, 19, 36, 209,
        176, 80, 247, 160, 158, 150, 234, 50, 185, 177, 17, 152], rfl⟩

/-- A signature of second 1: a legacy record, two storeys, a calendar chain and a publication. -/
def anchoredSignature : Signature where
  parts :=
    { chains := anchoredStoreys
      calendarChain := some (calendarOfSecondOne 1 [])
      authenticationRecord := none
      publicationRecord :=
        some { publicationData := rootOfSecondOne, references := [], repositoryUris := [] }
      timestampRecord := some legacyRecord }
  check_parts := rfl

/-- The signature held against its document, a publication of the user's, and a service that
delivers the calendar up to second 1 and up to second 3. -/
def anchoredContext (user : PublicationData) : Context :=
  { Context.ofSignature anchoredSignature with
    documentHash := some (Imprint.uniform .sha256 0x11)
    inputLevel := 1
    userPublication := some user
    extendingAllowed := true
    extender := some (Archive.extender
      { chains :=
          [calendarOfSecondOne 1 [],
            calendarOfSecondOne 3 [{ direction := .left, sibling := Imprint.uniform .sha256 0x55 }]]
        delay := 0 }) }

/-- What a verification ends in can be computed. -/
theorem PolicyChain.exists_verify_of_state {chain : PolicyChain} {ctx : Context} {run : Run}
    {state : PolicyState}
    (h : (chain.verify ctx run).1.toOption.map VerificationResult.state = some state) :
    ∃ result run', chain.verify ctx run = (.ok result, run') ∧ result.state = state := by
  obtain ⟨result, hresult, hstate⟩ := Option.map_eq_some_iff.mp h
  exact ⟨result, _, Prod.ext (toOption_eq_some_iff.mp hresult) rfl, hstate⟩

/-- The signature is coherent, by an ok that its second policy gives. -/
theorem PolicyChain.isCoherent_of_verify_anchoredContext :
    userPublication ∈ builtIn ∧ ∃ result run,
      userPublication.verify (anchoredContext rootOfSecondThree) (.start []) = (.ok result, run) ∧
      result.state = .ok ∧ (anchoredContext rootOfSecondThree).IsCoherent := by
  have listed : userPublication ∈ builtIn := by decide
  have decided : (userPublication.verify (anchoredContext rootOfSecondThree)
      (.start [])).1.toOption.map VerificationResult.state = some .ok := by
    decide +kernel
  obtain ⟨result, run, verified, ok⟩ := exists_verify_of_state decided
  exact ⟨listed, result, run, verified, ok, isCoherent_of_verify listed verified ok⟩

end Keyless
