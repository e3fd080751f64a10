/-
What an ok of the policies of the user's publication and of the calendar database
stands for.

The user's publication is either the one that the signature has, and then the
calendar chain leads to it, or a later one, and then a chain that was asked for
leads to it.  The calendar database confirms a signature by a chain of its own,
asked for at the time of the signature's calendar root, or for the newest root
when there is none.

The three rules about the database differ in how they look for their key.  The one
about the root finds it in the calendar chain and is passed over without one; the
other two take whatever time the signature has, and never are.  With a calendar
chain all three keys are one, and without it two of them are, so that the rules
that ask for a chain ask for the same one (`Context.passAll_database_iff`).  That
they also judge the same one is due to the chains that a run keeps, whatever the
service would have answered the second time.
-/
import Keyless.Proofs.Verification.Soundness

namespace Keyless

namespace Context

variable {ctx : Context} {start : List ExtensionRequest} {run run' : Run}

/-! ### Chains that were asked for -/

/-- The chain was asked for under the key, with leave to do so, and has the signature's own right
siblings before any others. -/
structure Obtained (ctx : Context) (start log : List ExtensionRequest) (key : ChainKey)
    (chain : CalendarChain) : Prop where
  allowed : ctx.extendingAllowed = true
  answered : ctx.Answered start log key chain
  keeps : ∀ own, ctx.signature.calendarChain = some own →
    own.rightSiblings <+: chain.rightSiblings

theorem Reaches.obtained (h : ctx.Reaches start run) {key : ChainKey} {chain : CalendarChain}
    (called : ctx.extendedChain key run = (.ok (.ok chain), run')) :
    ctx.Obtained start run'.log key chain := by
  obtain ⟨-, -, hagrees⟩ := chain?_of_extendedChain called
  have hanswered := h.answered called
  obtain ⟨extender, earlier, hpermitted, -⟩ := id hanswered
  exact ⟨(permittedExtender_eq_ok_iff.mp hpermitted).2, hanswered,
    Signature.agreesWith_iff.mp hagrees⟩

/-! ### The user's publication -/

/-- The publication is the one that the signature has, and the calendar chain leads to it. -/
def IsOwnPublication (ctx : Context) (publication : PublicationData) : Prop :=
  (∃ record, ctx.signature.publicationRecord = some record ∧
    record.publicationData = publication) ∧ ctx.signature.LeadsToRoot publication

/-- The publication is later than the signature, and one chain that was asked for leads to it. -/
def IsExtendedTo (ctx : Context) (start log : List ExtensionRequest)
    (publication : PublicationData) : Prop :=
  ctx.signature.aggregationTime < publication.publicationTime ∧
    ∃ chain, ctx.Obtained start log (some publication.publicationTime) chain ∧
      ctx.LeadsTo publication chain

theorem comparablePublications_eq_some_iff {user own : PublicationData} :
    ctx.comparablePublications? = some (user, own) ↔ ctx.userPublication = some user ∧
      ctx.signature.publishedRoot = some own ∧ user.publicationTime = own.publicationTime := by
  unfold comparablePublications? Signature.publishedRoot
  cases ctx.userPublication with
  | none => simp
  | some given =>
      cases ctx.signature.publicationRecord with
      | none => simp
      | some record =>
          simp only [Option.ite_none_right_eq_some, Option.some.injEq, Prod.mk.injEq,
            Option.map_some]
          refine ⟨?_, ?_⟩
          · rintro ⟨htime, rfl, rfl⟩
            exact ⟨rfl, rfl, htime⟩
          · rintro ⟨rfl, rfl, htime⟩
            exact ⟨htime, rfl, rfl⟩

/-- **An ok of the policy of the user's publication stands for the signature's own.** -/
theorem isOwnPublication_of_userPublication (h : Policy.userPublication.EndsOk ctx run run') :
    ∃ user, ctx.userPublication = some user ∧ ctx.IsOwnPublication user := by
  obtain ⟨-, consistent, hrules⟩ := Policy.internalAnd_endsOk_iff.mp h
  rw [passAll_iff_of_settled (by simp [Rule.demand])] at hrules
  simp only [List.forall_mem_cons] at hrules
  obtain ⟨-, -, -, htime, hhash, -⟩ := hrules
  rw [Rule.holds_iff_of_settled rfl] at htime hhash
  obtain ⟨⟨user, own⟩, hboth⟩ := Option.isSome_iff_exists.mp (Verdict.isClear_ofPresence.mp htime)
  obtain ⟨huser, hown, htime⟩ := comparablePublications_eq_some_iff.mp hboth
  obtain ⟨record, hrecord, rfl⟩ := Option.map_eq_some_iff.mp hown
  rw [userHashVerdict, hboth] at hhash
  simp only [Verdict.isClear_ofCheck, decide_eq_true_eq] at hhash
  obtain rfl : record.publicationData = user := by
    cases user
    cases hdata : record.publicationData
    simp_all
  exact ⟨record.publicationData, huser, ⟨record, hrecord, rfl⟩,
    consistent.isCoherent.published record hrecord⟩

/-- **An ok of the policy that extends to the user's publication stands for an extension to it.** -/
theorem isExtendedTo_of_userPublicationExtending (reached : ctx.Reaches start run)
    (h : Policy.userPublicationExtending.EndsOk ctx run run') :
    ∃ user, ctx.userPublication = some user ∧ ctx.IsExtendedTo start run'.log user := by
  have h : ExtensionTarget.user.policy.EndsOk ctx run run' := h
  obtain ⟨-, -, -, user, chain, huser, hlater, hchain, hleads⟩ := ExtensionTarget.endsOk_iff.mp h
  exact ⟨user, huser, hlater rfl, chain, reached.obtained hchain, hleads⟩

/-! ### The calendar database -/

/-- What the rules about the calendar database ask of a chain. -/
structure ConfirmedBy (ctx : Context) (chain : CalendarChain) : Prop where
  /-- It begins at the root of the signature's round. -/
  input : ctx.signature.rootHash = .ok chain.inputHash
  /-- It states the signature's time as its beginning. -/
  aggregationTime : chain.aggregationTime = ctx.signature.aggregationTime
  /-- It leads to where the signature's own leads. -/
  output : ∀ own, ctx.signature.calendarChain = some own →
    ∃ root, chain.output = .ok root ∧ own.output = .ok root

/-- One chain that was asked for at the time of the signature's calendar root confirms it. -/
def IsConfirmed (ctx : Context) (start log : List ExtensionRequest) : Prop :=
  ∃ chain, ctx.Obtained start log ctx.signature.publicationTime chain ∧ ctx.ConfirmedBy chain

theorem accepts_databaseInput_iff {chain : CalendarChain} :
    Rule.calendarExtendedInputHash.Accepts ctx ctx.signature.publicationTime chain ↔
      ctx.signature.rootHash = .ok chain.inputHash := by
  rw [Rule.accepts_iff rfl, judgeInput, Verdict.exists_isClear_check_iff]
  simp only [decide_eq_true_eq]
  refine ⟨?_, fun hroot => ⟨_, hroot, rfl⟩⟩
  rintro ⟨root, hroot, heq⟩
  rw [hroot, heq]

theorem accepts_databaseTime_iff {chain : CalendarChain} :
    Rule.calendarExtendedAggregationTime.Accepts ctx ctx.signature.publicationTime chain ↔
      chain.aggregationTime = ctx.signature.aggregationTime := by
  rw [Rule.accepts_iff rfl, judgeTime]
  simp

theorem accepts_databaseRoot_iff {own chain : CalendarChain}
    (has : ctx.signature.calendarChain = some own) :
    Rule.calendarExtendedRootHash.Accepts ctx (some own.publicationTime) chain ↔
      ∃ root, chain.output = .ok root ∧ own.output = .ok root := by
  have asks : Rule.calendarExtendedRootHash.demand ctx =
      .extended (some own.publicationTime) fun extended =>
        extended.output >>= fun theirs => own.output >>= fun ours =>
          pure (.ofCheck (theirs = ours)) := by
    show ctx.demandDatabaseRoot = _
    rw [demandDatabaseRoot, has]
  rw [Rule.accepts_iff asks]
  simp only [bind_eq_ok_iff]
  refine ⟨?_, ?_⟩
  · rintro ⟨verdict, ⟨theirs, htheirs, ours, hours, hverdict⟩, hclear⟩
    rw [← Except.ok.inj hverdict, Verdict.isClear_ofCheck, decide_eq_true_eq] at hclear
    exact ⟨theirs, htheirs, by rw [hours, hclear]⟩
  · rintro ⟨root, htheirs, hours⟩
    exact ⟨.ofCheck (root = root), ⟨root, htheirs, root, hours, rfl⟩, by simp⟩

/-- **The rules about the calendar database pass when one chain is had that confirms the
signature.** -/
theorem passAll_database_iff :
    ctx.PassAll [.calendarExtendedRootHash, .calendarExtendedInputHash,
        .calendarExtendedAggregationTime] run run' ↔
      run.cancelled = false ∧ ∃ chain,
        ctx.extendedChain ctx.signature.publicationTime run = (.ok (.ok chain), run') ∧
        ctx.ConfirmedBy chain := by
  cases hown : ctx.signature.calendarChain with
  | none =>
      -- The rule about the root is passed over, and the other two ask for the newest root.
      have settles : Rule.calendarExtendedRootHash.demand ctx = .settled (.ok .notApplicable) := by
        show ctx.demandDatabaseRoot = _
        rw [demandDatabaseRoot, hown]
      have clear : Rule.calendarExtendedRootHash.Holds ctx :=
        (Rule.holds_iff_of_settled settles).mpr (Or.inr rfl)
      have asks : ∀ rule ∈ [Rule.calendarExtendedInputHash, .calendarExtendedAggregationTime],
          ∃ judge, rule.demand ctx = .extended ctx.signature.publicationTime judge := by
        simp [Rule.demand]
      rw [PassAll]
      simp only [Rule.passes_iff_of_settled settles, clear, and_true,
        passAll_iff_of_extended (List.cons_ne_nil _ _) asks, List.forall_mem_cons,
        accepts_databaseInput_iff, accepts_databaseTime_iff]
      refine ⟨?_, ?_⟩
      · rintro ⟨mid, ⟨-, rfl⟩, goes, chain, hchain, hinput, htime, -⟩
        exact ⟨goes, chain, hchain, hinput, htime, by simp [hown]⟩
      · rintro ⟨goes, chain, hchain, hconfirmed⟩
        exact ⟨run, ⟨goes, rfl⟩, goes, chain, hchain, hconfirmed.input,
          hconfirmed.aggregationTime, by simp⟩
  | some own =>
      have hkey : ctx.signature.publicationTime = some own.publicationTime := by
        rw [Signature.publicationTime, hown, Option.map_some]
      have asks : ∀ rule ∈ [Rule.calendarExtendedRootHash, .calendarExtendedInputHash,
          .calendarExtendedAggregationTime],
          ∃ judge, rule.demand ctx = .extended ctx.signature.publicationTime judge := by
        simp [Rule.demand, demandDatabaseRoot, hown, hkey]
      rw [passAll_iff_of_extended (List.cons_ne_nil _ _) asks]
      refine and_congr_right fun _ => exists_congr fun chain => and_congr_right fun _ => ?_
      simp only [List.forall_mem_cons, accepts_databaseInput_iff, accepts_databaseTime_iff]
      rw [hkey, accepts_databaseRoot_iff hown]
      refine ⟨?_, ?_⟩
      · rintro ⟨hroot, hinput, htime, -⟩
        exact ⟨hinput, htime, fun other hother => by
          rwa [← Option.some.inj (hown.symm.trans hother)]⟩
      · intro hconfirmed
        exact ⟨hconfirmed.output own hown, hconfirmed.input, hconfirmed.aggregationTime, by simp⟩

/-- **The policy of the calendar database ends in ok exactly when the signature is consistent and
one chain is had that confirms it.** -/
theorem calendarBased_endsOk_iff :
    Policy.calendarBased.EndsOk ctx run run' ↔ run.cancelled = false ∧ ctx.IsConsistent ∧
      ctx.canExtend = true ∧ ∃ chain,
        ctx.extendedChain ctx.signature.publicationTime run = (.ok (.ok chain), run') ∧
        ctx.ConfirmedBy chain := by
  have permitted : Rule.extendingPermitted.Holds ctx ↔ ctx.canExtend = true :=
    (Rule.holds_iff_of_settled rfl).trans Verdict.isClear_ofPresence
  rw [Policy.calendarBased, Policy.internalAnd_endsOk_iff, PassAll]
  have asks : Rule.extendingPermitted.demand ctx = .settled _ := rfl
  simp only [Rule.passes_iff_of_settled asks, permitted, passAll_database_iff]
  refine and_congr_right fun goes => and_congr_right fun _ => ⟨?_, ?_⟩
  · rintro ⟨mid, ⟨-, rfl, extend⟩, -, hchain⟩
    exact ⟨extend, hchain⟩
  · rintro ⟨extend, hchain⟩
    exact ⟨run, ⟨goes, rfl, extend⟩, goes, hchain⟩

/-- **An ok of the policy of the calendar database stands for a chain that confirms the
signature.** -/
theorem isConfirmed_of_calendarBased (reached : ctx.Reaches start run)
    (h : Policy.calendarBased.EndsOk ctx run run') : ctx.IsConfirmed start run'.log := by
  obtain ⟨-, -, -, chain, hchain, hconfirmed⟩ := calendarBased_endsOk_iff.mp h
  exact ⟨chain, reached.obtained hchain, hconfirmed⟩

end Context

namespace PolicyChain

/--
**An ok of the user's publication or of the calendar database stands for what it says.**
For the first there is a publication of the user's, and it is the signature's own, or a
later one to which one chain leads; for the second, one chain confirms where the
signature's round is in the calendar.  Such a chain was asked for in this verification,
and has the signature's own right siblings before any others.
-/
theorem confirmation_sound {ctx : Context} {start : List ExtensionRequest} {run : Run}
    (reached : ctx.Reaches start run) :
    (∀ {result run'}, userPublication.verify ctx run = (.ok result, run') → result.state = .ok →
      ∃ user, ctx.userPublication = some user ∧
        (ctx.IsOwnPublication user ∨ ctx.IsExtendedTo start run'.log user)) ∧
    ∀ {result run'}, calendarBased.verify ctx run = (.ok result, run') → result.state = .ok →
      ctx.IsConfirmed start run'.log := by
  refine ⟨fun verified ok => ?_, fun verified ok => ?_⟩
  · obtain ⟨policy, hpolicy, mid, hmid, hends⟩ := exists_endsOk_of_verify reached verified ok
    have hcases : policy = .userPublication ∨ policy = .userPublicationExtending := by
      simpa [userPublication, withFallback, userPublicationExtending, single, policies]
        using hpolicy
    rcases hcases with rfl | rfl
    · obtain ⟨user, huser, hown⟩ := Context.isOwnPublication_of_userPublication hends
      exact ⟨user, huser, Or.inl hown⟩
    · obtain ⟨user, huser, hextended⟩ :=
        Context.isExtendedTo_of_userPublicationExtending hmid hends
      exact ⟨user, huser, Or.inr hextended⟩
  · obtain ⟨policy, hpolicy, mid, hmid, hends⟩ := exists_endsOk_of_verify reached verified ok
    obtain rfl : policy = .calendarBased := by
      simpa [calendarBased, single] using hpolicy
    exact Context.isConfirmed_of_calendarBased hmid hends

/-- The signature of second 1 is taken to the publication of second 3, and confirmed at its own. -/
theorem confirmation_sound_anchoredContext :
    (anchoredContext rootOfSecondThree).IsExtendedTo []
        (userPublication.verify (anchoredContext rootOfSecondThree) (.start [])).2.log
        rootOfSecondThree ∧
      (anchoredContext rootOfSecondThree).IsConfirmed []
        (calendarBased.verify (anchoredContext rootOfSecondThree) (.start [])).2.log := by
  have extended : (userPublication.verify (anchoredContext rootOfSecondThree)
      (.start [])).1.toOption.map VerificationResult.state = some .ok := by
    decide +kernel
  have confirmed : (calendarBased.verify (anchoredContext rootOfSecondThree)
      (.start [])).1.toOption.map VerificationResult.state = some .ok := by
    decide +kernel
  obtain ⟨first, run, verified, ok⟩ := exists_verify_of_state extended
  obtain ⟨second, run', verified', ok'⟩ := exists_verify_of_state confirmed
  obtain ⟨user, huser, hanchor⟩ := (confirmation_sound .start).1 verified ok
  obtain rfl : rootOfSecondThree = user := Option.some.inj huser
  refine ⟨?_, ?_⟩
  · rw [verified]
    refine hanchor.resolve_left fun hown => ?_
    -- The signature's own publication is of second 1.
    obtain ⟨⟨record, hrecord, hdata⟩, -⟩ := hown
    obtain rfl := Option.some.inj hrecord
    exact absurd hdata (by decide)
  · rw [verified']
    exact (confirmation_sound .start).2 verified' ok'

end PolicyChain

end Keyless
