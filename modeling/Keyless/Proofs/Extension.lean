/-
What extending makes of a signature.

An extended signature is put together and checked like any other, and the check
asks that every algorithm in the calendar chain has a function.  A chain that has
been folded from the root of the signature's round has shown that already, so a
chain that leads somewhere can always be attached to the signature it extends
(`Signature.exists_extendedBy`).

Extending itself asks for little: that the publication is not before the signature, and
that the chain keeps the signature's past.  `Signature.extend_eq_ok_iff` says all of it,
and all that comes of it.
-/
import Keyless.Extension.Signature
import Keyless.Proofs.Aggregation.Binding
import Keyless.Proofs.Calendar.Binding

namespace Keyless

theorem requireImplemented_of_climbCalendar {links : List CalendarLink} :
    ∀ {running root : Imprint}, climbCalendar running links = .ok root →
      ∀ link ∈ links, link.sibling.algorithm.requireImplemented = .ok () := by
  induction links with
  | nil =>
      intro running root _ link hlink
      exact absurd hlink List.not_mem_nil
  | cons first rest ih =>
      intro running root h
      obtain ⟨next, hnext, hrest⟩ := climbCalendar_cons.mp h
      exact List.forall_mem_cons.mpr
        ⟨HashAlgorithm.requireImplemented_of_hash hnext, fun link hlink => ih hrest link hlink⟩

theorem CalendarChain.check_of_output {c : CalendarChain} {root : Imprint}
    (input : c.inputHash.algorithm.requireImplemented = .ok ()) (output : c.output = .ok root) :
    c.check = .ok () :=
  check_bind_eq_ok_iff.mpr ⟨input, forM_eq_ok_iff.mpr (requireImplemented_of_climbCalendar output)⟩

theorem Node.algorithm_of_climbChains {chains : List AggregationChain} :
    ∀ {node root : Node}, chains ≠ [] → (∀ c ∈ chains, c.links ≠ []) →
      node.climbChains chains = .ok root → ∃ c ∈ chains, root.hash.algorithm = c.algorithm := by
  induction chains with
  | nil =>
      intro node root hne
      exact absurd rfl hne
  | cons chain rest ih =>
      intro node root _ linked h
      obtain ⟨next, hnext, hrest⟩ := climbChains_cons.mp h
      by_cases hlast : rest = []
      · rw [hlast] at hrest
        rw [← Except.ok.inj hrest]
        have halg := algorithm_of_climb (linked chain List.mem_cons_self) hnext
        exact ⟨chain, List.mem_cons_self, halg⟩
      · have hlinked := fun c hc => linked c (List.mem_cons_of_mem chain hc)
        obtain ⟨c, hc, halg⟩ := ih hlast hlinked hrest
        exact ⟨c, List.mem_cons_of_mem chain hc, halg⟩

namespace Signature

theorem requireImplemented_of_rootHash (s : Signature) {root : Imprint}
    (h : s.rootHash = .ok root) : root.algorithm.requireImplemented = .ok () := by
  obtain ⟨node, hnode, rfl⟩ := bind_pure_eq_ok_iff.mp h
  obtain ⟨c, hc, halg⟩ := Node.algorithm_of_climbChains s.chains_ne_nil
    (fun c hc => s.links_ne_nil hc) (s.climbChains_leaf hnode)
  have hcheck := (SignatureParts.check_eq_ok_iff.mp s.check_parts).2.1 c hc
  rw [halg]
  exact (AggregationChain.check_eq_ok_iff.mp hcheck).2.1

theorem exists_ofParts {parts : SignatureParts} (h : parts.check = .ok ()) :
    ∃ s, ofParts parts = .ok s ∧ s.parts = parts := by
  unfold ofParts
  split
  · exact ⟨_, rfl, rfl⟩
  · next hfault =>
      rw [h] at hfault
      exact absurd hfault (by simp)

/-- **A chain that leads on from the signature's root, and keeps its past, extends the
signature.** -/
theorem exists_extendedBy (s : Signature) {chain : CalendarChain} {root : Imprint}
    (input : s.rootHash = .ok chain.inputHash) (output : chain.output = .ok root)
    (agrees : s.agreesWith chain = true) (publication : PublicationRecord) :
    ∃ extended, s.extendedBy publication chain = .ok extended ∧
      extended.calendarChain = some chain := by
  have hchain := CalendarChain.check_of_output (s.requireImplemented_of_rootHash input) output
  obtain ⟨hne, hchains, -, htimestamp, -⟩ := SignatureParts.check_eq_ok_iff.mp s.check_parts
  have hparts : ({ s.parts with
      calendarChain := some chain
      publicationRecord := some publication
      authenticationRecord := none } : SignatureParts).check = .ok () := by
    refine SignatureParts.check_eq_ok_iff.mpr ⟨hne, hchains, ?_, htimestamp, ?_⟩
    · intro c hc
      rw [← Option.some.inj hc]
      exact hchain
    · exact SignatureParts.checkRecords_eq_ok_iff.mpr ⟨fun h => absurd h (by simp), Or.inl rfl⟩
  obtain ⟨extended, hextended, heq⟩ := exists_ofParts hparts
  refine ⟨extended, ?_, by rw [calendarChain, heq]⟩
  have hcheck : s.checkExtension chain = .ok () := if_pos agrees
  exact check_bind_eq_ok_iff.mpr ⟨hcheck, hextended⟩

/-- A chain keeps the signature's past when the right siblings of the signature's own calendar
chain, if there is one, come first among its own. -/
theorem agreesWith_iff {s : Signature} {chain : CalendarChain} :
    s.agreesWith chain = true ↔
      ∀ own, s.calendarChain = some own → own.rightSiblings <+: chain.rightSiblings := by
  unfold agreesWith
  cases s.calendarChain with
  | none => simp
  | some own => simp [CalendarChain.keepsPast]

theorem agreesWith_eq_false_iff {s : Signature} {chain : CalendarChain} :
    s.agreesWith chain = false ↔
      ∃ own, s.calendarChain = some own ∧ ¬ own.rightSiblings <+: chain.rightSiblings := by
  unfold agreesWith
  cases s.calendarChain with
  | none => simp
  | some own => simp [CalendarChain.keepsPast, ← Bool.not_eq_true]

/-- The parts of a signature extended by a chain to a publication. -/
def extendedParts (s : Signature) (publication : PublicationRecord) (chain : CalendarChain) :
    SignatureParts :=
  { s.parts with
    calendarChain := some chain
    publicationRecord := some publication
    authenticationRecord := none }

theorem extendedBy_eq_ok_iff {s s' : Signature} {publication : PublicationRecord}
    {chain : CalendarChain} :
    s.extendedBy publication chain = .ok s' ↔
      s.agreesWith chain = true ∧ s'.parts = s.extendedParts publication chain := by
  have hcheck : s.checkExtension chain = .ok () ↔ s.agreesWith chain = true := by
    unfold checkExtension
    by_cases hagrees : s.agreesWith chain = true <;> simp [hagrees]
  rw [← hcheck, extendedParts, ← ofParts_eq_ok_iff]
  exact check_bind_eq_ok_iff

/-- **All that extending asks for, and all that it gives.** -/
theorem extend_eq_ok_iff {s s' : Signature} {extender : Extender}
    {publication : PublicationRecord} {log log' : List ExtensionRequest} :
    s.extend extender publication log = (.ok s', log') ↔
      s.aggregationTime ≤ publication.publicationData.publicationTime ∧
      ∃ request, request = ⟨s.aggregationTime, some publication.publicationData.publicationTime⟩ ∧
        log' = log ++ [request] ∧
        ∃ chain, (extender.answer log request).result = .ok chain ∧
          s.agreesWith chain = true ∧ s'.parts = s.extendedParts publication chain := by
  unfold extend extensionRequest
  by_cases hearly : publication.publicationData.publicationTime < s.aggregationTime
  · have hnot : ¬ s.aggregationTime ≤ publication.publicationData.publicationTime := by
      rw [Time.le_iff]
      rw [Time.lt_iff] at hearly
      omega
    simp [hearly, hnot]
  · have hle : s.aggregationTime ≤ publication.publicationData.publicationTime := by
      rw [Time.le_iff]
      rw [Time.lt_iff] at hearly
      omega
    simp only [if_neg hearly, Extender.ask, exists_eq_left, ← extendedBy_eq_ok_iff]
    cases (extender.answer log _).result with
    | error cause => simp
    | ok chain => simp [hle, and_comm, eq_comm]

end Signature

end Keyless
