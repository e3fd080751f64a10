/-
What an archive answers to a request for the newest root, and to one for that root's time.

Both requests are answered from one list of chains, and both may find several: nothing
keeps an archive from holding two chains between the same times.  Of these the request
for an exact time takes the first (`Archive.find?_exact`), and the request for the newest
root the last (`Archive.find?_newest`).  So the two agree when the first and the last of
them are one chain, and not otherwise (`Archive.exact_of_newest`).

Extending a signature to the newest root asks both.  The publication is made of the root
that the last chain leads to, and the chain that is then fetched for it is the first.
-/
import Keyless.Command.Run
import Keyless.Proofs.Verification.Extending

namespace Keyless

namespace Archive

/-- The chains of an archive between two times, in its order. -/
def between (archive : Archive) (aggregationTime publicationTime : Time) : List CalendarChain :=
  archive.chains.filter fun c =>
    c.publicationTime = publicationTime && c.aggregationTime = aggregationTime

variable {archive : Archive} {time : Time} {newest : CalendarChain}

theorem mem_between {c : CalendarChain} {publicationTime : Time} :
    c ∈ archive.between time publicationTime ↔
      c ∈ archive.chains ∧ c.aggregationTime = time ∧ c.publicationTime = publicationTime := by
  simp only [between, List.mem_filter, Bool.and_eq_true, decide_eq_true_eq]
  exact and_congr_right fun _ => and_comm

/-! ### The latest of a list -/

theorem latest?_eq_none {chains : List CalendarChain} (h : latest? chains = none) :
    chains = [] := by
  cases chains with
  | nil => rfl
  | cons chain rest =>
      rw [latest?] at h
      split at h
      · exact absurd h (by simp)
      · split at h <;> exact absurd h (by simp)

/-- The latest chain is no earlier than any, and of those of its time the last one. -/
theorem latest?_eq_some {chains : List CalendarChain} :
    ∀ {newest : CalendarChain}, latest? chains = some newest →
      (∀ c ∈ chains, c.publicationTime ≤ newest.publicationTime) ∧
        (chains.filter (·.publicationTime = newest.publicationTime)).getLast? = some newest := by
  induction chains with
  | nil =>
      intro newest h
      exact absurd h (by simp [latest?])
  | cons chain rest ih =>
      intro newest h
      rw [latest?] at h
      cases hrest : latest? rest with
      | none =>
          rw [hrest] at h
          obtain rfl := Option.some.inj h
          rw [latest?_eq_none hrest]
          simp [Time.le_iff]
      | some other =>
          rw [hrest] at h
          obtain ⟨hle, hlast⟩ := ih hrest
          simp only at h
          by_cases hlater : other.publicationTime < chain.publicationTime
          · -- Everything behind the chain is earlier, so nothing there is of its time.
            rw [if_pos hlater] at h
            obtain rfl := Option.some.inj h
            have hearlier : ∀ c ∈ rest, c.publicationTime < chain.publicationTime := by
              intro c hc
              have := hle c hc
              simp only [Time.le_iff, Time.lt_iff] at this hlater ⊢
              omega
            have hnone : rest.filter (·.publicationTime = chain.publicationTime) = [] := by
              rw [List.filter_eq_nil_iff]
              intro c hc hsame
              have := hearlier c hc
              rw [of_decide_eq_true hsame, Time.lt_iff] at this
              omega
            refine ⟨List.forall_mem_cons.mpr ⟨Int.le_refl _, fun c hc => ?_⟩, ?_⟩
            · exact Int.le_of_lt (hearlier c hc)
            · rw [List.filter_cons_of_pos (by simp), hnone]
              rfl
          · -- The chain does not take the place of one behind it, even if it is of the same time.
            rw [if_neg hlater] at h
            obtain rfl := Option.some.inj h
            refine ⟨List.forall_mem_cons.mpr ⟨Int.not_lt.mp hlater, hle⟩, ?_⟩
            rw [List.filter_cons]
            split
            · rw [List.getLast?_cons, hlast]
              rfl
            · exact hlast

/-! ### The two requests -/

theorem find?_exact (archive : Archive) (time publicationTime : Time) :
    archive.find? { aggregationTime := time, publicationTime := some publicationTime } =
      (archive.between time publicationTime).head? := by
  rw [between, ← List.filter_filter, List.head?_filter]
  rfl

/-- A request for the newest root is answered with a chain of the latest time, the last one. -/
theorem find?_newest
    (found : archive.find? { aggregationTime := time, publicationTime := none } = some newest) :
    (∀ c ∈ archive.chains, c.aggregationTime = time →
        c.publicationTime ≤ newest.publicationTime) ∧
      (archive.between time newest.publicationTime).getLast? = some newest := by
  have hlatest : latest? (archive.chains.filter (·.aggregationTime = time)) = some newest := found
  obtain ⟨hle, hlast⟩ := latest?_eq_some hlatest
  rw [List.filter_filter] at hlast
  refine ⟨fun c hc htime => hle c (List.mem_filter.mpr ⟨hc, ?_⟩), hlast⟩
  exact decide_eq_true htime

end Archive

/-! ### Extending to the newest root -/

/-- A chain leads to the publication at its time. -/
def CalendarChain.Reaches (c : CalendarChain) (publication : PublicationData) : Prop :=
  c.publicationTime = publication.publicationTime ∧ c.output = .ok publication.publishedHash

theorem Command.reaches_of_newestPublication {archive : Archive} {s : Signature}
    {newest : CalendarChain} {record : PublicationRecord} {log : List ExtensionRequest}
    (found : archive.find? { aggregationTime := s.aggregationTime, publicationTime := none } =
      some newest)
    (made : newestPublication archive.extender s = (.ok record, log)) :
    newest.Reaches record.publicationData := by
  unfold newestPublication Extender.ask Archive.extender at made
  simp only [found] at made
  cases hroot : newest.output with
  | error cause =>
      rw [hroot] at made
      exact absurd (Prod.mk.inj made).1 (by simp)
  | ok root =>
      rw [hroot] at made
      rw [← Except.ok.inj (Prod.mk.inj made).1]
      exact ⟨rfl, hroot⟩

namespace Archive

variable {archive : Archive} {time : Time} {newest : CalendarChain}

/--
**The newest root, and the chain for its time.**  An archive that answers a request for
the newest root does so with a latest chain, and it answers the request for that chain's
time as well: with the first chain between the two times, where the newest is the last.
So both answers are one chain when the first and the last are.  The publication that a
signature is to be extended to is the newest root, and the chain fetched for it is the
other answer, which reaches the publication only if it leads to the same root.
-/
theorem exact_of_newest
    (found : archive.find? { aggregationTime := time, publicationTime := none } = some newest) :
    newest ∈ archive.between time newest.publicationTime ∧
      (∀ c ∈ archive.chains, c.aggregationTime = time →
        c.publicationTime ≤ newest.publicationTime) ∧
      ∃ first ∈ archive.between time newest.publicationTime,
        archive.find?
            { aggregationTime := time, publicationTime := some newest.publicationTime } =
          some first ∧
        (first = newest ↔ (archive.between time newest.publicationTime).head? =
          (archive.between time newest.publicationTime).getLast?) ∧
        ∀ (s : Signature) (record : PublicationRecord) (log : List ExtensionRequest),
          s.aggregationTime = time →
          Command.newestPublication archive.extender s = (.ok record, log) →
          newest.Reaches record.publicationData ∧
            (archive.extender.answer log
              { aggregationTime := time
                publicationTime := some record.publicationData.publicationTime }).result =
              .ok first ∧
            (first.Reaches record.publicationData ↔ first.output = newest.output) := by
  obtain ⟨hlatest, hlast⟩ := find?_newest found
  have hmem := List.mem_of_getLast? hlast
  obtain ⟨first, hfirst⟩ := Option.isSome_iff_exists.mp
    (List.isSome_head?.mpr (List.ne_nil_of_mem hmem))
  have hexact := (archive.find?_exact time newest.publicationTime).trans hfirst
  have hbetween := List.mem_of_head? hfirst
  refine ⟨hmem, hlatest, first, hbetween, hexact, ?_, fun s record log htime made => ?_⟩
  · rw [hfirst, hlast, Option.some.injEq]
  · subst htime
    have hreaches := Command.reaches_of_newestPublication found made
    refine ⟨hreaches, ?_, ?_⟩
    · rw [← hreaches.1]
      simp only [Archive.extender, hexact]
    · have hends : first.publicationTime = record.publicationData.publicationTime :=
        (mem_between.mp hbetween).2.2.trans hreaches.1
      rw [hreaches.2]
      exact and_iff_right hends

/-- A chain that leads between the same times as the bare one, to another root. -/
def strayChain : CalendarChain := { bareChain with inputHash := Imprint.uniform .sha256 0x44 }

/-- An archive that holds both. -/
def dividedArchive : Archive := { chains := [strayChain, bareChain], delay := 0 }

/-- The divided archive's newest root is the bare chain's, and the chain that it gives for the
publication of that root is the stray one, which does not reach it. -/
theorem exact_ne_newest_dividedArchive :
    dividedArchive.find? { aggregationTime := .ofUInt32 1000, publicationTime := none } =
        some bareChain ∧
      dividedArchive.find?
          { aggregationTime := .ofUInt32 1000
            publicationTime := some bareChain.publicationTime } = some strayChain ∧
      strayChain ≠ bareChain ∧
      ∃ record log,
        Command.newestPublication dividedArchive.extender (twoStoreySignature (.ofUInt32 1000)) =
          (.ok record, log) ∧
        ¬ strayChain.Reaches record.publicationData := by
  have hroots : strayChain.inputHash ≠ bareChain.inputHash := by decide
  refine ⟨rfl, rfl, fun h => hroots (congrArg CalendarChain.inputHash h), _, _, rfl, ?_⟩
  exact fun h => hroots (Except.ok.inj h.2)

/-- What the divided archive answers, by the general statement. -/
theorem exact_of_newest_dividedArchive :
    dividedArchive.find? { aggregationTime := .ofUInt32 1000, publicationTime := none } =
        some bareChain ∧
      ∃ first ∈ dividedArchive.between (.ofUInt32 1000) bareChain.publicationTime,
        dividedArchive.find?
            { aggregationTime := .ofUInt32 1000
              publicationTime := some bareChain.publicationTime } = some first := by
  have found : dividedArchive.find?
      { aggregationTime := .ofUInt32 1000, publicationTime := none } = some bareChain := rfl
  obtain ⟨-, -, first, hbetween, hexact, -⟩ := exact_of_newest found
  exact ⟨found, first, hbetween, hexact⟩

end Archive

end Keyless
